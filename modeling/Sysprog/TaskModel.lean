import Sysprog.CircularList
import Sysprog.Execution

namespace Sysprog.TaskScheduler

open CircularList Execution

/-!
# The user-level scheduler of `user-level-thread/`

Tasks and the main program form a ring.  A timer tick, or a task that is done, passes
control to the next one in the ring.  A task that is done goes to a list from which
whoever resumes inside `schedule` frees it.  `none` stands for an access to memory
that is not there.
-/

/-- The cells with links: those of the tasks, of `task_main`, and the head `task_reap`. -/
inductive Node where
  | main
  | reap
  | task (id : Nat)
deriving DecidableEq

/-- Where a saved context continues. -/
inductive Context where
  | trampoline
  | schedule
deriving DecidableEq

/-- A `struct task_struct`, apart from its links. -/
structure TaskStruct where
  context : Context
  reapSelf : Bool

/--
The tasks in memory, each under a number of its own, and the variables of the program.
The last three fields are records the program does not keep: whether `main` has left
its loop, whose callback has returned, and what was destroyed.
-/
structure State where
  links : Links Node
  tasks : Node → Option TaskStruct
  current : Node
  preemptCount : Int
  allocated : Nat
  finished : Bool
  returned : List Nat
  destroyed : List Nat

namespace State

/-- The state after `task_init`. -/
def initial : State where
  links := (Links.init (Links.init ⟨fun node => node, fun node => node⟩ .main) .reap)
  tasks := Function.update (fun _ => none) .main (some { context := .schedule, reapSelf := false })
  current := .main
  preemptCount := 0
  allocated := 0
  finished := false
  returned := []
  destroyed := []

/-- Read `node->next`, which for a task lies in the task itself. -/
def next (state : State) (node : Node) : Option Node :=
  match node with
  | .task _ => (state.tasks node).map fun _ => state.links.next node
  | _ => some (state.links.next node)

end State

/-- `task_destroy`. -/
def taskDestroy (state : State) (id : Nat) : Option State := do
  let _ ← state.tasks (.task id)
  return {
    state with
    links := state.links.remove (.task id)
    tasks := Function.update state.tasks (.task id) none
    destroyed := id :: state.destroyed }

/-- The loop of `schedule` that cleans `task_reap`, with its two iterators. -/
def reapLoop : Nat → Node → Node → State → Option State
  | 0, _, _, _ => none
  | rounds + 1, task, tmp, state =>
      match task with
      | .reap => some state
      | .main => none
      | .task id => do
          let state ← taskDestroy state id
          let following ← state.next tmp
          reapLoop rounds tmp following state

/-- `list_for_each_entry_safe (task, tmp, &task_reap, list) task_destroy(task)`. -/
def cleanReaps (state : State) : Option State := do
  let task ← state.next .reap
  let tmp ← state.next task
  reapLoop (state.allocated + 1) task tmp state

/--
`task_switch_to`, from its caller's point of view: the context of `current` is saved
inside `schedule`, and the other one continues where it was saved.
-/
def taskSwitchTo (state : State) (task : TaskStruct) (next : Node) : Option State := do
  let tasks :=
    Function.update state.tasks state.current (some { task with context := .schedule })
  let state := { state with current := next, tasks := tasks }
  let target ← tasks next
  match target.context with
  | .trampoline => return state
  | .schedule => cleanReaps state

/-- `schedule`, which signals do not interrupt. -/
def schedule (state : State) : Option State := do
  let task ← state.tasks state.current
  -- The first entry behind the current task is never null.
  let nextTask ← state.next state.current
  let links :=
    if task.reapSelf then
      (state.links.remove state.current).pushFront .reap state.current
    else
      state.links
  taskSwitchTo { state with links := links } task nextTask

/-- `timer_handler`. -/
def timerHandler (state : State) : Option State :=
  if state.preemptCount ≠ 0 then some state else schedule state

/-- `task_add`, whose changes to the ring no tick can interrupt. -/
def taskAdd (state : State) : State where
  links := state.links.pushBack .main (.task state.allocated)
  tasks :=
    Function.update state.tasks (.task state.allocated)
      (some { context := .trampoline, reapSelf := false })
  current := state.current
  preemptCount := state.preemptCount
  allocated := state.allocated + 1
  finished := state.finished
  returned := state.returned
  destroyed := state.destroyed

/-- The condition of the loop in `main`. -/
def loopContinues (state : State) : Bool :=
  state.links.next .main ≠ .main ∨ state.links.next .reap ≠ .reap

/-! ## Runs -/

/-- What happens next: a tick, or a step of the code that runs. -/
inductive Event where
  | tick
  | preemptDisable
  | preemptEnable
  | add
  /-- The callback returns and `reap_self` is set. -/
  | complete
  /-- The trampoline calls `schedule`. -/
  | leave
  /-- `main` evaluates the condition of its loop. -/
  | check

/-- The current task has set its `reap_self`. -/
def Completed (state : State) : Prop :=
  (state.tasks state.current).map TaskStruct.reapSelf = some true

instance (state : State) : Decidable (Completed state) :=
  inferInstanceAs (Decidable (_ = _))

/--
What may happen: until `main` has left its loop, ticks at any time, and what the code of
the current task or of `main` does.  A completed task only calls `schedule`.
-/
def Possible (state : State) : Event → Prop
  | .tick => state.finished = false
  | .preemptDisable | .preemptEnable | .add => state.finished = false ∧ ¬ Completed state
  | .complete => state.finished = false ∧ state.current ≠ .main ∧ ¬ Completed state
  | .leave => state.finished = false ∧ Completed state
  | .check => state.finished = false ∧ state.current = .main

/-- `task->reap_self = true`, at the end of the current task. -/
def setReapSelf (state : State) : Option State := do
  let task ← state.tasks state.current
  let returned :=
    match state.current with
    | .task id => id :: state.returned
    | _ => state.returned
  return {
    state with
    tasks := Function.update state.tasks state.current (some { task with reapSelf := true })
    returned := returned }

/-- Carry out an event. -/
def perform (state : State) : Event → Option State
  | .tick => timerHandler state
  | .preemptDisable => some { state with preemptCount := state.preemptCount + 1 }
  | .preemptEnable => some { state with preemptCount := state.preemptCount - 1 }
  | .add => some (taskAdd state)
  | .complete => setReapSelf state
  | .leave => schedule state
  | .check => some { state with finished := !loopContinues state }

/-- One event of a run. -/
def Step (before : State) (event : Event) (after : State) : Prop :=
  Possible before event ∧ perform before event = some after

end Sysprog.TaskScheduler
