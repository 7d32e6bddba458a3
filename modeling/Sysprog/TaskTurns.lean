import Sysprog.RoundRobin
import Sysprog.TaskHistory

namespace Sysprog.TaskScheduler

open CircularList Execution

/-!
# Taking turns on the ring of tasks

Read from the node behind the current one, the ring is a table whose fixed member is
`main`: a tick passes the turn on, a completed task leaves, and `task_add` seats a new
task before `main`.  So control goes round among those that stay, and new tasks are first
run in the order of `task_add`.
-/

/-! ## Switches -/

/-- The event calls `schedule`. -/
def Schedules (state : State) : Event → Prop
  | .tick => state.preemptCount = 0
  | .leave => True
  | _ => False

instance (state : State) : (event : Event) → Decidable (Schedules state event)
  | .tick => inferInstanceAs (Decidable (state.preemptCount = 0))
  | .leave => .isTrue trivial
  | .preemptDisable | .preemptEnable | .add | .complete | .check => .isFalse id

/-- The nodes that `schedule` switches to in the course of the events, in order. -/
def switches : State → List Event → List Node
  | _, [] => []
  | state, event :: rest =>
      match perform state event with
      | some after =>
          if Schedules state event then
            after.current :: switches after rest
          else
            switches after rest
      | none => []

/-- The event switches to the node. -/
def SwitchesTo (before : State) (event : Event) (after : State) (node : Node) : Prop :=
  Step before event after ∧ Schedules before event ∧ after.current = node

/-- The node is linked into the ring. -/
def InRing (state : State) (node : Node) : Prop :=
  ∃ nodes, Ring state.links .main nodes ∧ node ∈ Node.main :: nodes

/-- The node is in the ring in every state that the events lead through. -/
def StaysInRing (start : State) (events : List Event) (node : Node) : Prop :=
  ∀ earlier later state,
    events = earlier ++ later →
    Run Step start earlier state →
    InRing state node

/-- The switches of a run and of one more event. -/
theorem switches_concat
    {start before after : State}
    {events : List Event}
    {event : Event}
    (run : Run Step start events before)
    (step : Step before event after) :
    switches start (events ++ [event]) =
      switches start events ++ if Schedules before event then [after.current] else [] := by
  have computed : events.foldlM perform start = some before :=
    run.foldlM_eq fun step => step.2
  clear run
  induction events generalizing start with
  | nil =>
      obtain rfl := Option.some.inj computed
      simp only [List.nil_append, switches, step.2]
  | cons first rest inductionHypothesis =>
      rw [List.foldlM_cons] at computed
      obtain ⟨middle, taken, onward⟩ := Option.bind_eq_some_iff.mp computed
      simp only [List.cons_append, switches, taken, inductionHypothesis onward]
      split <;> simp

/-! ## The ring as a table -/

/-- The table is the ring, read from the node behind the current one. -/
structure Seats
    (state : State)
    (running waiting : List Nat)
    (table : RoundRobin.Table Node) : Prop where
  divided : Divided state running waiting
  queue :
    ∃ front back,
      Node.main :: running.map Node.task = front ++ state.current :: back ∧
        table.queue = back ++ front ++ [state.current]
  joined : table.joined = (List.range state.allocated).map Node.task

section Seats

variable {state after start final : State} {running waiting running' waiting' : List Nat}
  {table : RoundRobin.Table Node} {event : Event} {events : List Event} {node : Node}

/-- After `task_init` only `main` sits at the table. -/
theorem seats_initial :
    Seats State.initial [] [] { queue := [.main], joined := [] } where
  divided := divided_initial
  queue := ⟨[], [], rfl, rfl⟩
  joined := rfl

/-- The table seats the nodes of the ring. -/
theorem Seats.inRing_iff (seats : Seats state running waiting table) :
    InRing state node ↔ node ∈ table.queue := by
  obtain ⟨front, back, cells, queue⟩ := seats.queue
  have same : node ∈ table.queue ↔ node ∈ Node.main :: running.map Node.task := by
    rw [queue, cells]
    simp only [List.mem_append, List.mem_cons, List.not_mem_nil, or_false]
    tauto
  rw [same]
  constructor
  · rintro ⟨nodes, ring, member⟩
    rwa [ring.unique seats.divided.placed.ring] at member
  · exact fun member => ⟨_, seats.divided.placed.ring, member⟩

/-- An event that leaves the ring and the current node alone changes nothing at the table. -/
theorem Seats.idle
    (seats : Seats state running waiting table)
    (divided : Divided after running' waiting')
    (links : after.links = state.links)
    (current : after.current = state.current)
    (allocated : after.allocated = state.allocated) :
    Seats after running' waiting' table := by
  have ring := divided.placed.ring
  rw [links] at ring
  have same := ring.unique seats.divided.placed.ring
  refine ⟨divided, ?_, ?_⟩
  · rw [same, current]
    exact seats.queue
  · rw [allocated]
    exact seats.joined

/-- `task_add` seats the new task before `main`. -/
theorem Seats.taskAdd
    (seats : Seats state running waiting table)
    (divided : Divided (taskAdd state) running' waiting') :
    ∃ table',
      RoundRobin.Step .main table (.join (.task state.allocated)) table' ∧
        Seats (TaskScheduler.taskAdd state) running' waiting' table' := by
  have same := divided.placed.ring.unique seats.divided.placed.taskAdd.ring
  obtain ⟨front, back, cells, queue⟩ := seats.queue
  have new : Node.task state.allocated ∉ Node.main :: table.joined := by
    simp [seats.joined]
  obtain ⟨rest, ending⟩ : ∃ rest, front ++ [state.current] = Node.main :: rest := by
    cases front with
    | nil => exact ⟨[], by rw [(List.cons.inj cells).1]; rfl⟩
    | cons first others => exact ⟨others ++ [state.current], by rw [(List.cons.inj cells).1]; rfl⟩
  obtain ⟨seated, joined⟩ := table
  obtain rfl : seated = back ++ Node.main :: rest := by
    rw [← ending, ← List.append_assoc]
    exact queue
  refine ⟨_, .join new, divided, ⟨front, back ++ [.task state.allocated], ?_, ?_⟩, ?_⟩
  · rw [same, List.map_append, ← List.cons_append, cells, List.append_assoc]
    rfl
  · dsimp only
    rw [List.append_assoc, List.append_assoc,
      show (TaskScheduler.taskAdd state).current = state.current from rfl, ending]
    rfl
  · dsimp only
    rw [show joined = _ from seats.joined, show
      (TaskScheduler.taskAdd state).allocated = state.allocated + 1 from rfl, List.range_succ,
      List.map_append]
    rfl

/-- The node behind a place of the ring, and the ring read from behind that node. -/
theorem rotate_cells
    {cells front back : List Node}
    (split : Node.main :: cells = front ++ back) :
    ∃ front' back',
      back ++ front = back.headD .main :: (back' ++ front') ∧
        Node.main :: cells = front' ++ back.headD .main :: back' := by
  cases back with
  | nil =>
      rw [List.append_nil] at split
      exact ⟨[], cells, by simpa using split.symm, rfl⟩
  | cons first rest =>
      exact ⟨front, rest, rfl, split⟩

/-- `schedule` passes the turn on, and a completed task leaves the table. -/
theorem Seats.schedule
    (seats : Seats state running waiting table)
    (taken : schedule state = some after)
    (divided : Divided after running' waiting') :
    ∃ turn table',
      RoundRobin.Step .main table turn table' ∧
        turn.served = some after.current ∧
        Seats after running' waiting' table' := by
  have placed := seats.divided.placed
  obtain ⟨_, _, _, scheduled, placedAfter, left, passed, _, allocated⟩ :=
    placed.schedule_next seats.divided.onRing
  obtain rfl := Option.some.inj (taken.symm.trans scheduled)
  rw [← divided.placed.ring.unique placedAfter.ring] at left
  obtain ⟨front, back, cells, queue⟩ := seats.queue
  have next : after.current = back.headD .main := by
    obtain ⟨_, _, present, following, _⟩ := placed.next_onRing seats.divided.onRing
    have stored : state.next state.current = some (state.links.next state.current) := by
      cases same : state.current with
      | task id =>
          rw [same] at present
          simp [State.next, present]
      | main => rfl
      | reap => rfl
    rw [← placed.ring.next_eq cells]
    exact Option.some.inj (passed.symm.trans stored)
  have joined : table.joined = (List.range after.allocated).map Node.task := by
    rw [allocated]
    exact seats.joined
  obtain ⟨seated, members⟩ := table
  by_cases completed : Completed state
  · have notMain := placed.ne_main completed
    have distinct := placed.ring.nodup
    rw [cells, List.nodup_append] at distinct
    have notInFront : state.current ∉ front := fun inFront =>
      distinct.2.2 _ inFront _ List.mem_cons_self rfl
    have cellsAfter : Node.main :: running'.map Node.task = front ++ back := by
      rw [left, if_pos completed]
      have erased := congrArg (List.erase · state.current) cells
      simpa [List.erase_cons, notMain.symm, List.erase_append_right _ notInFront] using erased
    obtain ⟨front', back', rotated, split⟩ := rotate_cells cellsAfter
    rw [← next] at rotated split
    obtain rfl : seated = after.current :: (back' ++ front' ++ [state.current]) := by
      rw [← List.cons_append, ← rotated]
      exact queue
    exact ⟨.leave after.current, _, .leave notMain, rfl, divided, ⟨front', back', split, rfl⟩,
      joined⟩
  · rw [if_neg completed] at left
    have around : Node.main :: running'.map Node.task = (front ++ [state.current]) ++ back := by
      rw [left, cells, List.append_assoc]
      rfl
    obtain ⟨front', back', rotated, split⟩ := rotate_cells around
    rw [← next] at rotated split
    obtain rfl : seated = after.current :: (back' ++ front') := by
      rw [← rotated, ← List.append_assoc]
      exact queue
    exact ⟨.pass after.current, _, .pass, rfl, divided, ⟨front', back', split, rfl⟩, joined⟩

/-- Every event is a turn at the table. -/
theorem Seats.step
    (seats : Seats state running waiting table)
    (step : Step state event after) :
    ∃ running' waiting' turn table',
      RoundRobin.Step .main table turn table' ∧
        Seats after running' waiting' table' ∧
        turn.served.toList = if Schedules state event then [after.current] else [] := by
  obtain ⟨possible, taken⟩ := step
  obtain ⟨next, running', waiting', performed, divided, _⟩ := seats.divided.perform possible
  obtain rfl := Option.some.inj (performed.symm.trans taken)
  have unchanged
      (links : next.links = state.links)
      (current : next.current = state.current)
      (allocated : next.allocated = state.allocated)
      (quiet : ¬ Schedules state event) :
      ∃ running' waiting' turn table',
        RoundRobin.Step .main table turn table' ∧
          Seats next running' waiting' table' ∧
          turn.served.toList = if Schedules state event then [next.current] else [] := by
    refine ⟨running', waiting', .idle, table, .idle, seats.idle divided links current allocated, ?_⟩
    rw [if_neg quiet]
    rfl
  have scheduled
      (called : TaskScheduler.schedule state = some next)
      (schedules : Schedules state event) :
      ∃ running' waiting' turn table',
        RoundRobin.Step .main table turn table' ∧
          Seats next running' waiting' table' ∧
          turn.served.toList = if Schedules state event then [next.current] else [] := by
    obtain ⟨turn, table', step, served, seatsAfter⟩ := seats.schedule called divided
    refine ⟨running', waiting', turn, table', step, seatsAfter, ?_⟩
    rw [if_pos schedules, served]
    rfl
  cases event with
  | tick =>
      by_cases disabled : state.preemptCount ≠ 0
      · obtain rfl := Option.some.inj ((if_pos disabled).symm.trans performed)
        exact unchanged rfl rfl rfl disabled
      · exact scheduled ((if_neg disabled).symm.trans performed) (not_not.mp disabled)
  | preemptDisable =>
      obtain rfl := Option.some.inj performed
      exact unchanged rfl rfl rfl id
  | preemptEnable =>
      obtain rfl := Option.some.inj performed
      exact unchanged rfl rfl rfl id
  | add =>
      obtain rfl := Option.some.inj performed
      obtain ⟨table', step, seatsAfter⟩ := seats.taskAdd divided
      exact ⟨running', waiting', _, table', step, seatsAfter, rfl⟩
  | complete =>
      obtain ⟨task, _, same⟩ := Option.bind_eq_some_iff.mp performed
      obtain rfl := Option.some.inj same
      exact unchanged rfl rfl rfl id
  | leave =>
      exact scheduled performed trivial
  | check =>
      obtain rfl := Option.some.inj performed
      exact unchanged rfl rfl rfl id

/-- Every run is a run at the table, with the switches as its turns. -/
theorem Seats.run
    (seats : Seats start running waiting table)
    (run : Run Step start events final) :
    ∃ running' waiting' turns table',
      Run (RoundRobin.Step .main) table turns table' ∧
        Seats final running' waiting' table' ∧
        RoundRobin.served turns = switches start events := by
  induction run with
  | stop =>
      exact ⟨running, waiting, [], table, .stop, seats, rfl⟩
  | extend earlier last inductionHypothesis =>
      obtain ⟨_, _, turns, before, turned, seatsBefore, log⟩ := inductionHypothesis
      obtain ⟨running', waiting', turn, table', step, seatsAfter, served⟩ := seatsBefore.step last
      refine ⟨running', waiting', turns ++ [turn], table', turned.extend step, seatsAfter, ?_⟩
      rw [RoundRobin.served_concat, log, served, switches_concat earlier last]

/-- A switch is a turn of the node. -/
theorem Seats.switch
    (seats : Seats state running waiting table)
    (switch : SwitchesTo state event after node) :
    ∃ running' waiting' turn table',
      RoundRobin.Step .main table turn table' ∧
        Seats after running' waiting' table' ∧
        turn.served = some node := by
  obtain ⟨step, schedules, rfl⟩ := switch
  obtain ⟨running', waiting', turn, table', turned, seatsAfter, served⟩ := seats.step step
  rw [if_pos schedules] at served
  exact ⟨running', waiting', turn, table', turned, seatsAfter,
    Option.toList_eq_singleton_iff.mp served⟩

end Seats

/-! ## The order of the switches -/

section Order

variable {start after before again : State} {events between : List Event} {event next : Event}

/-- A task is first run behind all that were added before it. -/
theorem switched_before
    {id older : Nat}
    (run : Run Step State.initial events start)
    (switch : SwitchesTo start event after (.task id))
    (isOlder : older < id) :
    Node.task older ∈ switches State.initial events := by
  obtain ⟨_, _, turns, table, turned, seats, log⟩ := seats_initial.run run
  obtain ⟨_, _, turn, _, turnTaken, _, isServed⟩ := seats.switch switch
  have added : id < start.allocated := by
    have member : Node.task id ∈ Node.main :: table.joined := by
      obtain ⟨rest, first⟩ := (turnTaken.serves isServed).1
      exact (RoundRobin.seated_alone.run turned).known _ (by simp [first])
    simpa [seats.joined] using member
  obtain ⟨back, shape⟩ :
      ∃ back, table.joined = (List.range id).map Node.task ++ Node.task id :: back := by
    obtain ⟨more, count⟩ := Nat.exists_eq_add_of_lt added
    refine ⟨((List.range more).map (id + 1 + ·)).map Node.task, ?_⟩
    rw [seats.joined, count, show id + more + 1 = id + 1 + more by omega, List.range_add,
      List.range_succ]
    simp
  rw [← log]
  refine RoundRobin.first_turns turned turnTaken isServed shape _ ?_
  simpa using isOlder

/-- Between two switches to a node every other one that stays is switched to once. -/
theorem switched_once
    {node other : Node}
    (run : Run Step State.initial events start)
    (switch : SwitchesTo start event after node)
    (onward : Run Step after between before)
    (switchAgain : SwitchesTo before next again node)
    (consecutive : node ∉ switches after between)
    (different : other ≠ node)
    (stays : StaysInRing after between other) :
    (switches after between).count other = 1 := by
  obtain ⟨_, _, _, _, turned, seats, _⟩ := seats_initial.run run
  obtain ⟨_, _, _, _, turnTaken, seatsAfter, isServed⟩ := seats.switch switch
  obtain ⟨_, _, _, _, turnedBetween, seatsBefore, log⟩ := seatsAfter.run onward
  obtain ⟨_, _, _, _, turnAgain, _, isServedAgain⟩ := seatsBefore.switch switchAgain
  obtain ⟨rest, atEnd⟩ := (turnTaken.serves isServed).2.1
  obtain ⟨behind, first⟩ := (turnAgain.serves isServedAgain).1
  have seated := (RoundRobin.seated_alone.run turned).step turnTaken
  rw [← log] at consecutive ⊢
  refine RoundRobin.served_once seated turnedBetween atEnd first consecutive different ?_ ?_
  · exact seatsAfter.inRing_iff.mp (stays [] between after rfl .stop)
  · exact seatsBefore.inRing_iff.mp (stays between [] before (by simp) onward)

/--
A task is first run behind all that were added before it.  Between a switch and the next
one to the same node, every other node that stays in the ring is switched to once.
-/
theorem switches_round_robin
    {node : Node}
    (run : Run Step State.initial events start)
    (switch : SwitchesTo start event after node) :
    (∀ id, node = .task id → ∀ older < id, Node.task older ∈ switches State.initial events) ∧
      ∀ between before next again other,
        Run Step after between before →
        SwitchesTo before next again node →
        node ∉ switches after between →
        other ≠ node →
        StaysInRing after between other →
        (switches after between).count other = 1 := by
  constructor
  · rintro id rfl older isOlder
    exact switched_before run switch isOlder
  · intro between before next again other onward switchAgain consecutive different stays
    exact switched_once run switch onward switchAgain consecutive different stays

end Order

/-- Two tasks are added, and then so many ticks pass. -/
private def ticked : Nat → State
  | 0 => taskAdd (taskAdd State.initial)
  | ticks + 1 => (timerHandler (ticked ticks)).getD State.initial

/-- Ticks leave the ring of the two tasks alone. -/
private theorem ring_ticked :
    ∀ ticks ∈ [2, 3, 4], Ring (ticked ticks).links .main [.task 0, .task 1] := by
  have ring : Ring (ticked 0).links .main [.task 0, .task 1] :=
    divided_initial.placed.taskAdd.taskAdd.ring
  intro ticks member
  simp only [List.mem_cons, List.not_mem_nil, or_false] at member
  rcases member with rfl | rfl | rfl
  · exact ring
  · exact ring
  · exact ring

/-- Of two tasks the second is run behind the first, and from then on they alternate. -/
theorem switches_round_robin_two :
    ∃ start after before again,
      Run Step State.initial [.add, .add, .tick] start ∧
        SwitchesTo start .tick after (.task 1) ∧
        Run Step after [.tick, .tick] before ∧
        SwitchesTo before .tick again (.task 1) ∧
        Node.task 0 ∈ switches State.initial [.add, .add, .tick] ∧
        (switches after [.tick, .tick]).count (.task 0) = 1 := by
  have run : Run Step State.initial ([] ++ [.add] ++ [.add] ++ [.tick]) (ticked 1) :=
    .extend (.extend (.extend .stop ⟨⟨rfl, by decide⟩, rfl⟩) ⟨⟨rfl, by decide⟩, rfl⟩) ⟨rfl, rfl⟩
  have switch : SwitchesTo (ticked 1) .tick (ticked 2) (.task 1) := ⟨⟨rfl, rfl⟩, rfl, rfl⟩
  have onward : Run Step (ticked 2) ([] ++ [.tick] ++ [.tick]) (ticked 4) :=
    .extend (.extend .stop ⟨rfl, rfl⟩) ⟨rfl, rfl⟩
  have again : SwitchesTo (ticked 4) .tick (ticked 5) (.task 1) := ⟨⟨rfl, rfl⟩, rfl, rfl⟩
  have stays : StaysInRing (ticked 2) [.tick, .tick] (.task 0) := by
    intro earlier later state split steps
    have computed : earlier.foldlM perform (ticked 2) = some state :=
      steps.foldlM_eq fun step => step.2
    refine ⟨[.task 0, .task 1], ?_, by decide⟩
    rcases earlier with _ | ⟨_, _ | ⟨_, _ | ⟨_, _⟩⟩⟩
    · obtain rfl := Option.some.inj computed
      exact ring_ticked 2 (by decide)
    · obtain ⟨rfl, _⟩ := List.cons.inj split
      obtain rfl : ticked 3 = state := Option.some.inj computed
      exact ring_ticked 3 (by decide)
    · obtain ⟨rfl, more⟩ := List.cons.inj split
      obtain ⟨rfl, _⟩ := List.cons.inj more
      obtain rfl : ticked 4 = state := Option.some.inj computed
      exact ring_ticked 4 (by decide)
    · simp at split
  obtain ⟨first, between⟩ := switches_round_robin run switch
  exact ⟨_, _, _, _, run, switch, onward, again, first 1 rfl 0 (by decide),
    between _ _ _ _ (.task 0) onward again (by decide) (by decide) stays⟩

end Sysprog.TaskScheduler
