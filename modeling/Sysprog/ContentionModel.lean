import Mathlib.Data.Int.DivMod
import Mathlib.Logic.Function.Basic
import Sysprog.Execution

namespace Sysprog.Contention

open Execution

/-!
# The lock benchmark of `mutex-perf/mutexperf.c`

`contention` starts threads that go round a ring of mutexes hand over hand: each holds
one while it waits for the next.  Before that they line up: each takes its first mutex,
reports itself ready and waits for its start mutex, all of which `contention` holds until
everybody is ready.

The number of threads stands for `CONTENTION_THREAD_COUNT`.  A step is one call of a
mutex or condition function, or what a party does between two of them.  The clock, which
only fills the results, is left out.
-/

/-- A `pthread_mutex_t`.  That it is locked is all it knows. -/
inductive Mutex where
  | uninitialised
  | unlocked
  | locked
  | destroyed
deriving DecidableEq

/-- The mutexes of `contention`, by name. -/
inductive Name (threads : Nat) where
  /-- `info.mutexes[index]`, of which there are `CONTENTION_MUTEX_COUNT`. -/
  | mutexes (index : Fin (threads + 1))
  | readyMutex
  /-- `start_mutex` of a thread. -/
  | startMutex (thread : Fin threads)
deriving DecidableEq

/--
What a thread of `contention_thread` does next.  `i` and `j` are its variables once they
change.
-/
inductive Position (threads : Nat) where
  /-- Not created yet. -/
  | absent
  | lockFirst
  | lockReady
  /-- At `++info->ready_count`. -/
  | count
  | signal
  | unlockReady
  | lockStart
  | unlockStart
  /-- At the test of the loop. -/
  | loop (i : Fin (threads + 1)) (j : Nat)
  | lockNext (i : Fin (threads + 1)) (j : Nat)
  /-- At the unlock of the loop, holding the next mutex as well. -/
  | unlockBehind (i : Fin (threads + 1)) (j : Nat)
  | unlockLast (i : Fin (threads + 1))
  | returned
deriving DecidableEq

/-- What `contention` does next. -/
inductive Main (threads : Nat) where
  | initMutex (index : Nat)
  | initReady
  | initStart (thread : Nat)
  | lockStart (thread : Fin threads)
  | create (thread : Fin threads)
  | lockReady
  /-- At the test of the `while` loop, holding `ready_mutex`. -/
  | test
  /-- Inside `pthread_cond_wait`, asleep. -/
  | waiting
  /-- Inside `pthread_cond_wait`, about to take `ready_mutex` again. -/
  | woken
  | unlockReady
  | unlockStart (thread : Nat)
  | join (thread : Nat)
  | destroyStart (thread : Fin threads)
  | destroyMutex (index : Nat)
  | destroyReady
  | returned
deriving DecidableEq

/-- `struct contention_info` and where all parties stand. -/
structure State (threads : Nat) where
  mutexes : Name threads → Mutex
  readyCount : Nat
  main : Main threads
  positions : Fin threads → Position threads

variable {threads : Nat}

namespace State

/-- The memory when `contention` is called. -/
def initial : State threads where
  mutexes := fun _ => .uninitialised
  readyCount := 0
  main := .initMutex 0
  positions := fun _ => .absent

/-- Change a mutex from one state to another, or fail. -/
def change (state : State threads) (name : Name threads) (former latter : Mutex) :
    Option (State threads) :=
  if state.mutexes name = former then
    some { state with mutexes := Function.update state.mutexes name latter }
  else
    none

/-- `pthread_mutex_init`. -/
def init (state : State threads) (name : Name threads) : State threads :=
  { state with mutexes := Function.update state.mutexes name .unlocked }

/-- `pthread_mutex_lock`; `none` while it waits. -/
def lock (state : State threads) (name : Name threads) : Option (State threads) :=
  state.change name .unlocked .locked

/-- `pthread_mutex_unlock`; `none` where the mutex is not locked. -/
def unlock (state : State threads) (name : Name threads) : Option (State threads) :=
  state.change name .locked .unlocked

/-- `pthread_mutex_destroy`; `none` where the mutex is locked. -/
def destroy (state : State threads) (name : Name threads) : Option (State threads) :=
  state.change name .unlocked .destroyed

/-- A thread goes on. -/
def move (state : State threads) (thread : Fin threads) (position : Position threads) :
    State threads :=
  { state with positions := Function.update state.positions thread position }

/-- `contention` goes on. -/
def moveMain (state : State threads) (main : Main threads) : State threads :=
  { state with main := main }

/-- `pthread_cond_signal`: only `contention` ever waits. -/
def signal (state : State threads) : State threads :=
  if state.main = .waiting then state.moveMain .woken else state

end State

/-- `(i + 1) % CONTENTION_MUTEX_COUNT`. -/
def next (i : Fin (threads + 1)) : Fin (threads + 1) :=
  ⟨(i.val + 1) % (threads + 1), Nat.mod_lt _ (Nat.succ_pos _)⟩

/-- `res->reps / CONTENTION_THREAD_COUNT`, the division of C. -/
def threadReps (threads : Nat) (reps : Int) : Int :=
  reps.tdiv threads

/-- One step of a thread, or `none` where it has to wait or is not running. -/
def contentionThread (reps : Int) (state : State threads) (thread : Fin threads) :
    Option (State threads) :=
  match state.positions thread with
  | .absent => none
  | .lockFirst =>
      (state.lock (.mutexes thread.castSucc)).map (·.move thread .lockReady)
  | .lockReady => (state.lock .readyMutex).map (·.move thread .count)
  | .count =>
      let count := state.readyCount + 1
      let position := if count = threads then .signal else .unlockReady
      some ({ state with readyCount := count }.move thread position)
  | .signal => some (state.signal.move thread .unlockReady)
  | .unlockReady => (state.unlock .readyMutex).map (·.move thread .lockStart)
  | .lockStart => (state.lock (.startMutex thread)).map (·.move thread .unlockStart)
  | .unlockStart =>
      (state.unlock (.startMutex thread)).map (·.move thread (.loop thread.castSucc 1))
  | .loop i j =>
      let position := if j < threadReps threads reps then .lockNext i j else .unlockLast i
      some (state.move thread position)
  | .lockNext i j => (state.lock (.mutexes (next i))).map (·.move thread (.unlockBehind i j))
  | .unlockBehind i j =>
      (state.unlock (.mutexes i)).map (·.move thread (.loop (next i) (j + 1)))
  | .unlockLast i => (state.unlock (.mutexes i)).map (·.move thread .returned)
  | .returned => none

/-- One step of `contention`, or `none` where it has to wait or has returned. -/
def contention (state : State threads) : Option (State threads) :=
  match state.main with
  | .initMutex index =>
      if inside : index < threads + 1 then
        some ((state.init (.mutexes ⟨index, inside⟩)).moveMain (.initMutex (index + 1)))
      else
        some (state.moveMain .initReady)
  | .initReady =>
      some ({ state.init .readyMutex with readyCount := 0 }.moveMain (.initStart 0))
  | .initStart thread =>
      if inside : thread < threads then
        let thread : Fin threads := ⟨thread, inside⟩
        some ((state.init (.startMutex thread)).moveMain (.lockStart thread))
      else
        some (state.moveMain .lockReady)
  | .lockStart thread => (state.lock (.startMutex thread)).map (·.moveMain (.create thread))
  | .create thread =>
      some ((state.move thread .lockFirst).moveMain (.initStart (thread + 1)))
  | .lockReady => (state.lock .readyMutex).map (·.moveMain .test)
  | .test =>
      if state.readyCount < threads then
        (state.unlock .readyMutex).map (·.moveMain .waiting)
      else
        some (state.moveMain .unlockReady)
  | .waiting => none
  | .woken => (state.lock .readyMutex).map (·.moveMain .test)
  | .unlockReady => (state.unlock .readyMutex).map (·.moveMain (.unlockStart 0))
  | .unlockStart thread =>
      if inside : thread < threads then
        (state.unlock (.startMutex ⟨thread, inside⟩)).map (·.moveMain (.unlockStart (thread + 1)))
      else
        some (state.moveMain (.join 0))
  | .join thread =>
      if inside : thread < threads then
        let thread : Fin threads := ⟨thread, inside⟩
        if state.positions thread = .returned then
          some (state.moveMain (.destroyStart thread))
        else
          none
      else
        some (state.moveMain (.destroyMutex 0))
  | .destroyStart thread =>
      (state.destroy (.startMutex thread)).map (·.moveMain (.join (thread + 1)))
  | .destroyMutex index =>
      if inside : index < threads + 1 then
        (state.destroy (.mutexes ⟨index, inside⟩)).map (·.moveMain (.destroyMutex (index + 1)))
      else
        some (state.moveMain .destroyReady)
  | .destroyReady => (state.destroy .readyMutex).map (·.moveMain .returned)
  | .returned => none

/-- Who moves, or that `pthread_cond_wait` wakes without a signal. -/
inductive Event (threads : Nat) where
  | main
  | thread (thread : Fin threads)
  | spurious
deriving DecidableEq

/-- What an event does. -/
def perform (reps : Int) (state : State threads) : Event threads → Option (State threads)
  | .main => contention state
  | .thread thread => contentionThread reps state thread
  | .spurious => if state.main = .waiting then some (state.moveMain .woken) else none

/-- One step of a run. -/
def Step (reps : Int) (before : State threads) (event : Event threads) (after : State threads) :
    Prop :=
  perform reps before event = some after

/-! ## Who holds which mutex -/

/-- The parties that lock mutexes. -/
inductive Party (threads : Nat) where
  | main
  | thread (thread : Fin threads)
deriving DecidableEq

/-- What a thread at a position has locked and not unlocked again. -/
def Position.holds (thread : Fin threads) : Position threads → Name threads → Prop
  | .absent, _ | .lockFirst, _ | .returned, _ => False
  | .lockReady, name | .lockStart, name => name = .mutexes thread.castSucc
  | .count, name | .signal, name | .unlockReady, name =>
      name = .mutexes thread.castSucc ∨ name = .readyMutex
  | .unlockStart, name => name = .mutexes thread.castSucc ∨ name = .startMutex thread
  | .loop i _, name | .lockNext i _, name | .unlockLast i, name => name = .mutexes i
  | .unlockBehind i _, name => name = .mutexes i ∨ name = .mutexes (next i)

/-- What `contention` has locked and not unlocked again. -/
def Main.holds : Main threads → Name threads → Prop
  | .initStart first, name => ∃ thread, thread.val < first ∧ name = .startMutex thread
  | .lockStart last, name => ∃ thread, thread < last ∧ name = .startMutex thread
  | .create last, name => ∃ thread, thread ≤ last ∧ name = .startMutex thread
  | .lockReady, name | .waiting, name | .woken, name => ∃ thread, name = .startMutex thread
  | .test, name | .unlockReady, name => name = .readyMutex ∨ ∃ thread, name = .startMutex thread
  | .unlockStart first, name => ∃ thread, first ≤ thread.val ∧ name = .startMutex thread
  | _, _ => False

/-- A party has locked a mutex and not unlocked it again. -/
def Holds (state : State threads) : Party threads → Name threads → Prop
  | .main, name => state.main.holds name
  | .thread thread, name => (state.positions thread).holds thread name

end Sysprog.Contention
