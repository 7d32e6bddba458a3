import Mathlib.Data.List.Perm.Basic
import Sysprog.TaskModel

namespace Sysprog.TaskScheduler

open CircularList Execution

/-!
# Where the tasks are

Every task that was added is in the ring, waits in `task_reap`, or has been destroyed,
and control is only ever passed along the ring.  What a call of `schedule` does to this
division is shown once; every event keeps it.
-/

/-! ## The division of the tasks -/

/-- These tasks are in the ring and these in `task_reap`; all others have been destroyed. -/
structure Placed (state : State) (running waiting : List Nat) : Prop where
  ring : Ring state.links .main (running.map .task)
  reap : Ring state.links .reap (waiting.map .task)
  placed : (running ++ waiting ++ state.destroyed).Perm (List.range state.allocated)
  live : ∀ id, (state.tasks (.task id)).isSome = true ↔ id ∈ running ∨ id ∈ waiting
  main : ∃ task, state.tasks .main = some task ∧ task.reapSelf = false
  completed :
    ∀ id task,
      state.tasks (.task id) = some task →
      task.reapSelf = true →
      id ∈ state.returned
  returned : ∀ id, id ∈ waiting ++ state.destroyed → id ∈ state.returned

/-- The node is `main` or a task of the ring. -/
def OnRing (running : List Nat) (node : Node) : Prop :=
  node = .main ∨ ∃ id ∈ running, node = .task id

section Places

variable {state : State} {running waiting : List Nat}

/-- No task is in two places. -/
theorem Placed.nodup (placed : Placed state running waiting) :
    (running ++ waiting ++ state.destroyed).Nodup :=
  placed.placed.nodup_iff.mpr List.nodup_range

/-- Only tasks that were added are in a place. -/
theorem Placed.lt_allocated
    {id : Nat}
    (placed : Placed state running waiting)
    (member : id ∈ running ++ waiting ++ state.destroyed) :
    id < state.allocated :=
  List.mem_range.mp (placed.placed.mem_iff.mp member)

/-- The ring and `task_reap` have no cell in common. -/
theorem Placed.disjoint
    (placed : Placed state running waiting)
    {cell : Node}
    (member : cell ∈ Node.reap :: waiting.map .task) :
    cell ∉ Node.main :: running.map .task := by
  have distinct := placed.nodup
  rw [List.append_assoc] at distinct
  simp only [List.mem_cons, List.mem_map] at member ⊢
  rcases member with rfl | ⟨id, waits, rfl⟩
  · simp
  · rintro (same | ⟨other, inRing, same⟩)
    · simp at same
    · obtain rfl : other = id := by simpa using same
      exact (List.disjoint_of_nodup_append distinct) inRing (List.mem_append_left _ waits)

/-- `main` is never done. -/
theorem Placed.ne_main
    (placed : Placed state running waiting)
    (completed : Completed state) :
    state.current ≠ .main := by
  intro atMain
  obtain ⟨main, live, notDone⟩ := placed.main
  simp [Completed, atMain, live, notDone] at completed

/-- A node on the ring has a task, and the node behind it is on the ring. -/
theorem Placed.next_onRing
    {node : Node}
    (placed : Placed state running waiting)
    (onRing : OnRing running node) :
    ∃ task following,
      state.tasks node = some task ∧
        state.next node = some following ∧
        OnRing running following ∧
        (node ≠ .main → following ≠ node) := by
  rcases onRing with rfl | ⟨id, member, rfl⟩
  · obtain ⟨task, live, _⟩ := placed.main
    refine ⟨task, _, live, rfl, ?_, fun notMain => absurd rfl notMain⟩
    have inside := placed.ring.path.next_mem
    simp only [List.mem_append, List.mem_map, List.mem_singleton] at inside
    rcases inside with ⟨id, member, same⟩ | same
    · exact Or.inr ⟨id, member, same.symm⟩
    · exact Or.inl same
  · obtain ⟨task, live⟩ := Option.isSome_iff_exists.mp ((placed.live id).mpr (Or.inl member))
    refine ⟨task, state.links.next (.task id), live, by rw [State.next, live]; rfl, ?_, ?_⟩
    · have inside := (placed.ring.neighbours (List.mem_map_of_mem member)).2
      simp only [List.mem_cons, List.mem_map] at inside
      rcases inside with same | ⟨other, otherMember, same⟩
      · exact Or.inl same
      · exact Or.inr ⟨other, otherMember, same.symm⟩
    · intro _ same
      obtain ⟨front, back, rfl⟩ := List.append_of_mem member
      have distinct := placed.ring.nodup
      have path := placed.ring.path
      rw [List.map_append, List.map_cons] at distinct path
      have next := (path_append.mp path).2.next_eq
      rw [same] at next
      rw [List.nodup_cons, List.nodup_append] at distinct
      cases back with
      | nil => simp at next
      | cons other rest =>
          have repeated : id = other := by simpa using next
          simp [repeated] at distinct

/-- The structure at a node may be replaced by one with the same `reap_self`. -/
theorem Placed.setTask
    {node : Node}
    {former latter : TaskStruct}
    (placed : Placed state running waiting)
    (present : state.tasks node = some former)
    (same : latter.reapSelf = former.reapSelf) :
    Placed { state with tasks := Function.update state.tasks node (some latter) } running
      waiting where
  ring := placed.ring
  reap := placed.reap
  placed := placed.placed
  live := by
    intro id
    rw [← placed.live id]
    by_cases atNode : Node.task id = node
    · simp [atNode, present]
    · simp [atNode]
  main := by
    obtain ⟨task, live, notDone⟩ := placed.main
    by_cases atNode : Node.main = node
    · subst atNode
      obtain rfl := Option.some.inj (live.symm.trans present)
      exact ⟨latter, by simp, same.trans notDone⟩
    · exact ⟨task, (Function.update_of_ne atNode _ _).trans live, notDone⟩
  completed := by
    intro id task live isDone
    dsimp only at live
    by_cases atNode : Node.task id = node
    · subst atNode
      rw [Function.update_self] at live
      obtain rfl := Option.some.inj live
      exact placed.completed id former present (same.symm.trans isDone)
    · rw [Function.update_of_ne atNode] at live
      exact placed.completed id task live isDone
  returned := placed.returned

/-- `list_move` of a task of the ring to `task_reap`. -/
theorem Placed.move
    {id : Nat}
    {front back : List Nat}
    (placed : Placed state (front ++ id :: back) waiting)
    (isDone : id ∈ state.returned) :
    Placed
      { state with links := (state.links.remove (.task id)).pushFront .reap (.task id) }
      (front ++ back)
      (id :: waiting) := by
  have ring := placed.ring
  rw [List.map_append, List.map_cons] at ring
  have inside : Node.task id ∈ front.map Node.task ++ Node.task id :: back.map Node.task := by
    simp
  have separate : ∀ cell ∈ Node.reap :: waiting.map Node.task,
      cell ∉ Node.main :: (front.map Node.task ++ Node.task id :: back.map Node.task) := by
    intro cell member
    have apart := placed.disjoint member
    rwa [List.map_append, List.map_cons] at apart
  have reap := ring.remove_other inside placed.reap separate
  have left := ring.remove
  have fresh : Node.task id ∉ Node.reap :: waiting.map Node.task := by
    intro member
    exact separate _ member (List.mem_cons_of_mem _ inside)
  have leftDistinct := ring.nodup
  have apart : ∀ cell ∈ Node.main :: (front.map Node.task ++ back.map Node.task),
      cell ≠ Node.task id ∧ cell ∉ Node.reap :: waiting.map Node.task := by
    intro cell member
    constructor
    · rintro rfl
      rw [List.nodup_cons, List.nodup_append, List.nodup_cons] at leftDistinct
      simp only [List.mem_cons, List.mem_append] at member
      rcases member with same | inFront | inBack
      · simp at same
      · exact leftDistinct.2.2.2 _ inFront _ List.mem_cons_self rfl
      · exact leftDistinct.2.2.1.1 inBack
    · intro waits
      refine separate cell waits ?_
      simp only [List.mem_cons, List.mem_append] at member ⊢
      tauto
  refine
    { ring := by
        rw [List.map_append]
        exact reap.pushFront_other fresh left apart
      reap := reap.pushFront fresh
      placed := ?_
      live := ?_
      main := placed.main
      completed := placed.completed
      returned := ?_ }
  · refine List.Perm.trans ?_ placed.placed
    have shifted : (front ++ back ++ id :: waiting).Perm (front ++ id :: back ++ waiting) := by
      rw [List.append_assoc, List.append_assoc]
      exact (@List.perm_middle _ id back waiting).append_left front
    exact shifted.append_right state.destroyed
  · intro other
    rw [placed.live other]
    simp only [List.mem_append, List.mem_cons]
    tauto
  · intro other member
    rcases List.mem_cons.mp member with rfl | rest
    · exact isDone
    · exact placed.returned other rest

/-- The first cell of the rest of `task_reap`. -/
def firstWaiting (waiting : List Nat) : Node :=
  (waiting.map Node.task).headD .reap

/-- `task_destroy` of the first waiting task. -/
theorem Placed.destroy
    {id : Nat}
    {rest : List Nat}
    (placed : Placed state running (id :: rest)) :
    ∃ links tasks,
      let after :=
        { state with links := links, tasks := tasks, destroyed := id :: state.destroyed }
      taskDestroy state id = some after ∧ Placed after running rest := by
  obtain ⟨task, present⟩ :=
    Option.isSome_iff_exists.mp ((placed.live id).mpr (Or.inr List.mem_cons_self))
  have distinct := placed.nodup
  have reap := placed.reap
  rw [List.map_cons] at reap
  have notRunning : id ∉ running := by
    intro member
    rw [List.append_assoc] at distinct
    exact (List.disjoint_of_nodup_append distinct) member (by simp)
  have notWaiting : id ∉ rest := by
    rw [List.append_assoc, List.nodup_append] at distinct
    have tail := distinct.2.1
    rw [List.cons_append, List.nodup_cons] at tail
    exact fun member => tail.1 (List.mem_append_left _ member)
  refine ⟨state.links.remove (.task id), Function.update state.tasks (.task id) none, ?_, ?_⟩
  · simp only [taskDestroy, present, Option.bind_eq_bind, Option.bind_some]
    rfl
  refine
    { ring := ?_
      reap := @Ring.remove _ _ state.links .reap (.task id) [] _ reap
      placed := ?_
      live := ?_
      main := ?_
      completed := ?_
      returned := ?_ }
  · refine reap.remove_other List.mem_cons_self placed.ring ?_
    intro cell member waits
    exact placed.disjoint (by rw [List.map_cons]; exact waits) member
  · refine List.Perm.trans ?_ placed.placed
    rw [List.append_assoc, List.append_assoc]
    exact (@List.perm_middle _ _ rest _).append_left running
  · intro other
    by_cases same : other = id
    · subst same
      simp [notRunning, notWaiting]
    · dsimp only
      rw [Function.update_of_ne (by simpa using same), placed.live other, List.mem_cons]
      simp [same]
  · obtain ⟨main, live, notDone⟩ := placed.main
    exact ⟨main, by simpa using live, notDone⟩
  · intro other task live isDone
    by_cases same : other = id
    · subst same
      simp at live
    · dsimp only at live
      rw [Function.update_of_ne (by simpa using same)] at live
      exact placed.completed other task live isDone
  · intro other member
    refine placed.returned other ?_
    simp only [List.mem_append, List.mem_cons] at member ⊢
    tauto

/-- The cell behind the first waiting task. -/
theorem Placed.next_firstWaiting (placed : Placed state running waiting) :
    state.next (firstWaiting waiting) = some (firstWaiting waiting.tail) := by
  have path := placed.reap.path
  cases waiting with
  | nil =>
      exact congrArg some path.next_eq
  | cons id rest =>
      obtain ⟨task, present⟩ :=
        Option.isSome_iff_exists.mp ((placed.live id).mpr (Or.inr List.mem_cons_self))
      rw [List.map_cons] at path
      have next := path.2.next_eq
      simp only [firstWaiting, List.map_cons, List.headD_cons, List.tail_cons, State.next, present,
        Option.map_some, next]

/-- The loop over `task_reap` destroys every task in it. -/
theorem Placed.reapLoop
    {rounds : Nat}
    (placed : Placed state running waiting)
    (enough : waiting.length < rounds) :
    ∃ links tasks,
      let after :=
        { state with
          links := links
          tasks := tasks
          destroyed := waiting.reverse ++ state.destroyed }
      reapLoop rounds (firstWaiting waiting) (firstWaiting waiting.tail) state = some after ∧
        Placed after running [] := by
  induction waiting generalizing state rounds with
  | nil =>
      obtain ⟨rounds, rfl⟩ := Nat.exists_eq_succ_of_ne_zero (Nat.ne_of_gt enough)
      exact ⟨state.links, state.tasks, rfl, placed⟩
  | cons id rest inductionHypothesis =>
      obtain ⟨rounds, rfl⟩ := Nat.exists_eq_succ_of_ne_zero (show rounds ≠ 0 by omega)
      obtain ⟨links, tasks, destroyed, without⟩ := placed.destroy
      obtain ⟨links', tasks', looped, cleaned⟩ :=
        inductionHypothesis without (by simpa using enough)
      refine ⟨links', tasks', ?_, by simpa using cleaned⟩
      have first : firstWaiting (id :: rest) = .task id := rfl
      simp only [first, List.tail_cons, TaskScheduler.reapLoop, destroyed, Option.bind_eq_bind,
        Option.bind_some, without.next_firstWaiting]
      simpa using looped

/-- No more tasks wait than were ever added. -/
theorem Placed.length_waiting (placed : Placed state running waiting) :
    waiting.length ≤ state.allocated := by
  have sizes := placed.placed.length_eq
  simp only [List.length_append, List.length_range] at sizes
  omega

/-- `task_reap` is emptied by whoever resumes inside `schedule`. -/
theorem Placed.cleanReaps (placed : Placed state running waiting) :
    ∃ links tasks,
      let after :=
        { state with
          links := links
          tasks := tasks
          destroyed := waiting.reverse ++ state.destroyed }
      cleanReaps state = some after ∧ Placed after running [] := by
  have few := placed.length_waiting
  obtain ⟨links, tasks, looped, cleaned⟩ :=
    placed.reapLoop (show waiting.length < state.allocated + 1 by omega)
  refine ⟨links, tasks, ?_, cleaned⟩
  have start : state.next .reap = some (firstWaiting waiting) :=
    congrArg some placed.reap.path.next_eq
  simp only [TaskScheduler.cleanReaps, start, placed.next_firstWaiting, Option.bind_eq_bind,
    Option.bind_some]
  exact looped

/-- Passing control to a node of the ring. -/
theorem Placed.taskSwitchTo
    {task : TaskStruct}
    {next : Node}
    (placed : Placed state running waiting)
    (present : state.tasks state.current = some task)
    (onRing : OnRing running next) :
    ∃ after waiting',
      taskSwitchTo state task next = some after ∧
        Placed after running waiting' ∧
        after.current = next ∧
        after.finished = state.finished ∧
        after.allocated = state.allocated := by
  have saved := @Placed.setTask state running waiting _ task
    { task with context := .schedule } placed present rfl
  obtain ⟨target, _, targetPresent, _⟩ := saved.next_onRing onRing
  dsimp only at targetPresent
  let switched : State :=
    { state with
      tasks := Function.update state.tasks state.current (some { task with context := .schedule })
      current := next }
  have placedThere : Placed switched running waiting := { saved with }
  simp only [TaskScheduler.taskSwitchTo, targetPresent, Option.bind_eq_bind, Option.bind_some]
  cases target.context with
  | trampoline => exact ⟨switched, waiting, rfl, placedThere, rfl, rfl, rfl⟩
  | schedule =>
      obtain ⟨links, tasks, cleaned, emptied⟩ := placedThere.cleanReaps
      exact ⟨_, [], cleaned, emptied, rfl, rfl, rfl⟩

/--
`schedule` passes control to the next node of the ring.  A completed task leaves the ring
for `task_reap`, and is destroyed by then if the next one resumes inside `schedule`.
-/
theorem Placed.schedule_next
    (placed : Placed state running waiting)
    (onRing : OnRing running state.current) :
    ∃ after running' waiting',
      schedule state = some after ∧
        Placed after running' waiting' ∧
        running'.map Node.task =
          (if Completed state then (running.map Node.task).erase state.current
            else running.map Node.task) ∧
        state.next state.current = some after.current ∧
        after.finished = state.finished ∧
        after.allocated = state.allocated := by
  obtain ⟨task, next, present, following, nextOnRing, nextOther⟩ := placed.next_onRing onRing
  have completed : Completed state ↔ task.reapSelf = true := by
    simp [Completed, present]
  simp only [TaskScheduler.schedule, present, following, completed, Option.bind_eq_bind,
    Option.bind_some]
  by_cases isDone : task.reapSelf = true
  · rcases onRing with atMain | ⟨id, member, atTask⟩
    · exact absurd atMain (placed.ne_main (completed.mpr isDone))
    · obtain ⟨front, back, rfl⟩ := List.append_of_mem member
      have distinct := placed.ring.nodup
      have moved := placed.move (placed.completed id task (atTask ▸ present) isDone)
      rw [← atTask] at moved
      have stillOn : OnRing (front ++ back) next := by
        rcases nextOnRing with same | ⟨other, otherMember, rfl⟩
        · exact Or.inl same
        · refine Or.inr ⟨other, ?_, rfl⟩
          have different : other ≠ id := by
            rintro rfl
            exact nextOther (by simp [atTask]) atTask.symm
          simp only [List.mem_append, List.mem_cons] at otherMember ⊢
          tauto
      rw [if_pos isDone, if_pos isDone]
      obtain ⟨after, waiting', switched, placedAfter, current, finished, allocated⟩ :=
        moved.taskSwitchTo present stillOn
      refine ⟨after, front ++ back, waiting', switched, placedAfter, ?_, by rw [current],
        finished, allocated⟩
      rw [List.map_append, List.map_cons, List.nodup_cons, List.nodup_append] at distinct
      have notInFront : Node.task id ∉ front.map Node.task := fun inFront =>
        distinct.2.2.2 _ inFront _ List.mem_cons_self rfl
      rw [atTask, List.map_append, List.map_append, List.map_cons,
        List.erase_append_right _ notInFront, List.erase_cons_head]
  · rw [if_neg isDone, if_neg isDone]
    obtain ⟨after, waiting', switched, placedAfter, current, finished, allocated⟩ :=
      placed.taskSwitchTo present nextOnRing
    exact ⟨after, running, waiting', switched, placedAfter, rfl, by rw [current], finished,
      allocated⟩

/-- `schedule` stays on the ring. -/
theorem Placed.schedule
    (placed : Placed state running waiting)
    (onRing : OnRing running state.current) :
    ∃ after running' waiting',
      schedule state = some after ∧
        Placed after running' waiting' ∧
        OnRing running' after.current ∧
        OnRing running after.current ∧
        after.finished = state.finished := by
  obtain ⟨_, next, present, following, nextOnRing, nextOther⟩ := placed.next_onRing onRing
  obtain ⟨after, running', waiting', taken, placedAfter, left, passed, finished, _⟩ :=
    placed.schedule_next onRing
  obtain rfl := Option.some.inj (following.symm.trans passed)
  refine ⟨after, running', waiting', taken, placedAfter, ?_, nextOnRing, finished⟩
  rcases nextOnRing with atMain | ⟨id, member, atTask⟩
  · exact Or.inl atMain
  · refine Or.inr ⟨id, ?_, atTask⟩
    have inside : Node.task id ∈ running'.map Node.task := by
      rw [left]
      split
      · rename_i completed
        rw [← atTask]
        refine (List.mem_erase_of_ne (nextOther (placed.ne_main completed))).mpr ?_
        exact atTask ▸ List.mem_map_of_mem member
      · exact List.mem_map_of_mem member
    simpa using inside

end Places

/-! ## Every event keeps the division -/

/-- The division together with where control is and whether `main` has left its loop. -/
structure Divided (state : State) (running waiting : List Nat) : Prop where
  placed : Placed state running waiting
  onRing : OnRing running state.current
  finished : state.finished = true → running = [] ∧ waiting = []

section Events

variable {state : State} {running waiting : List Nat}

/-- After `task_init` there are no tasks. -/
theorem divided_initial : Divided State.initial [] [] where
  placed :=
    { ring := Ring.init_other ring_init (by simp)
      reap := ring_init
      placed := List.Perm.refl []
      live := by
        intro id
        simp [State.initial]
      main := ⟨{ context := .schedule, reapSelf := false }, by simp [State.initial], rfl⟩
      completed := by
        intro id task live
        simp [State.initial] at live
      returned := by
        intro id member
        simp [State.initial] at member }
  onRing := Or.inl rfl
  finished := by
    intro finished
    simp [State.initial] at finished

/-- `task_add` appends a new task to the ring. -/
theorem Placed.taskAdd (placed : Placed state running waiting) :
    Placed (taskAdd state) (running ++ [state.allocated]) waiting := by
  have new : state.allocated ∉ running ++ waiting ++ state.destroyed := by
    intro member
    exact Nat.lt_irrefl _ (placed.lt_allocated member)
  simp only [List.mem_append, not_or] at new
  have fresh : Node.task state.allocated ∉ Node.main :: running.map Node.task := by
    simpa using new.1.1
  have absent : state.tasks (.task state.allocated) = none := by
    rw [← Option.not_isSome_iff_eq_none, placed.live]
    tauto
  refine
    { ring := by
        rw [List.map_append]
        exact placed.ring.pushBack fresh
      reap := ?_
      placed := ?_
      live := ?_
      main := ?_
      completed := ?_
      returned := placed.returned }
  · refine placed.ring.pushBack_other placed.reap ?_
    intro cell member
    refine ⟨?_, placed.disjoint member⟩
    rintro rfl
    simp only [List.mem_cons, List.mem_map] at member
    rcases member with same | ⟨id, waits, same⟩
    · simp at same
    · obtain rfl : id = state.allocated := by simpa using same
      exact new.1.2 waits
  · have appended := placed.placed.append_right [state.allocated]
    rw [← List.range_succ] at appended
    refine List.Perm.trans ?_ appended
    have shifted :
        (running ++ [state.allocated] ++ waiting).Perm (running ++ waiting ++ [state.allocated]) := by
      rw [List.append_assoc, List.append_assoc]
      exact List.perm_append_comm.append_left running
    refine (shifted.append_right state.destroyed).trans ?_
    rw [List.append_assoc, List.append_assoc _ state.destroyed]
    exact List.perm_append_comm.append_left (running ++ waiting)
  · intro id
    by_cases same : id = state.allocated
    · subst same
      simp [TaskScheduler.taskAdd]
    · simp only [TaskScheduler.taskAdd, List.mem_append, List.mem_singleton]
      rw [Function.update_of_ne (by simpa using same), placed.live id]
      simp [same]
  · obtain ⟨main, live, notDone⟩ := placed.main
    exact ⟨main, by simpa [TaskScheduler.taskAdd] using live, notDone⟩
  · intro id task live isDone
    simp only [TaskScheduler.taskAdd] at live
    by_cases same : id = state.allocated
    · subst same
      rw [Function.update_self] at live
      obtain rfl := Option.some.inj live
      simp at isDone
    · rw [Function.update_of_ne (by simpa using same)] at live
      exact placed.completed id task live isDone

/-- A task that is done is recorded as such and stays where it is. -/
theorem Placed.setReapSelf
    {id : Nat}
    (placed : Placed state running waiting)
    (member : id ∈ running)
    (current : state.current = .task id) :
    ∃ after,
      setReapSelf state = some after ∧
        Placed after running waiting ∧
        after.current = state.current ∧
        after.finished = state.finished := by
  obtain ⟨task, present⟩ :=
    Option.isSome_iff_exists.mp ((placed.live id).mpr (Or.inl member))
  refine ⟨{
      state with
      tasks := Function.update state.tasks (.task id) (some { task with reapSelf := true })
      returned := id :: state.returned }, ?_, ?_, rfl, rfl⟩
  · simp only [TaskScheduler.setReapSelf, current, present]
    rfl
  · refine
      { ring := placed.ring
        reap := placed.reap
        placed := placed.placed
        live := ?_
        main := ?_
        completed := ?_
        returned := ?_ }
    · intro other
      rw [← placed.live other]
      by_cases same : other = id
      · simp [same, present]
      · simp [same]
    · obtain ⟨main, live, notDone⟩ := placed.main
      exact ⟨main, by simpa using live, notDone⟩
    · intro other live latter isDone
      by_cases same : other = id
      · simp [same]
      · dsimp only at latter
        rw [Function.update_of_ne (by simpa using same)] at latter
        exact List.mem_cons_of_mem _ (placed.completed other live latter isDone)
    · intro other waits
      exact List.mem_cons_of_mem _ (placed.returned other waits)

/-- The loop of `main` goes on as long as a task is in the ring or in `task_reap`. -/
theorem Placed.loopContinues (placed : Placed state running waiting) :
    loopContinues state = false ↔ running = [] ∧ waiting = [] := by
  have first := placed.ring.path.next_eq
  have second := placed.reap.path.next_eq
  simp only [TaskScheduler.loopContinues, first, second, decide_eq_false_iff_not, not_or,
    not_not, ne_eq]
  cases running <;> cases waiting <;> simp

/-- Every event that may happen succeeds, keeps the division, and stays on the ring. -/
theorem Divided.perform
    {event : Event}
    (divided : Divided state running waiting)
    (possible : Possible state event) :
    ∃ after running' waiting',
      perform state event = some after ∧
        Divided after running' waiting' ∧
        OnRing running after.current := by
  obtain ⟨placed, onRing, _⟩ := divided
  have scheduled (going : state.finished = false) :
      ∃ after running' waiting',
        TaskScheduler.schedule state = some after ∧
          Divided after running' waiting' ∧
          OnRing running after.current := by
    obtain ⟨after, running', waiting', taken, placedAfter, stays, follows, same⟩ :=
      placed.schedule onRing
    refine ⟨after, running', waiting', taken, ⟨placedAfter, stays, ?_⟩, follows⟩
    intro finished
    rw [same, going] at finished
    simp at finished
  cases event with
  | tick =>
      by_cases disabled : state.preemptCount ≠ 0
      · refine ⟨state, running, waiting, if_pos disabled, ⟨placed, onRing, ?_⟩, onRing⟩
        intro finished
        rw [show state.finished = false from possible] at finished
        simp at finished
      · obtain ⟨after, running', waiting', taken, rest⟩ := scheduled possible
        exact ⟨after, running', waiting', (if_neg disabled).trans taken, rest⟩
  | preemptDisable =>
      refine ⟨_, running, waiting, rfl, ⟨{ placed with }, onRing, ?_⟩, onRing⟩
      intro finished
      simp [possible.1] at finished
  | preemptEnable =>
      refine ⟨_, running, waiting, rfl, ⟨{ placed with }, onRing, ?_⟩, onRing⟩
      intro finished
      simp [possible.1] at finished
  | add =>
      refine ⟨_, _, waiting, rfl, ⟨placed.taskAdd, ?_, ?_⟩, onRing⟩
      · rcases onRing with atMain | ⟨id, member, atTask⟩
        · exact Or.inl atMain
        · exact Or.inr ⟨id, List.mem_append_left _ member, atTask⟩
      · intro finished
        simp [taskAdd, possible.1] at finished
  | complete =>
      rcases onRing with atMain | ⟨id, member, atTask⟩
      · exact absurd atMain possible.2.1
      · obtain ⟨after, taken, placedAfter, current, same⟩ := placed.setReapSelf member atTask
        have stays : OnRing running after.current := Or.inr ⟨id, member, current.trans atTask⟩
        refine ⟨after, running, waiting, taken, ⟨placedAfter, stays, ?_⟩, stays⟩
        intro finished
        rw [same, possible.1] at finished
        simp at finished
  | leave =>
      exact scheduled possible.1
  | check =>
      refine ⟨_, running, waiting, rfl, ⟨{ placed with }, onRing, ?_⟩, onRing⟩
      intro finished
      exact placed.loopContinues.mp (by simpa using finished)

/-- Every reachable state is divided. -/
theorem divided_of_run
    {events : List Event}
    {final : State}
    (run : Run Step State.initial events final) :
    ∃ running waiting, Divided final running waiting := by
  have initially : ∃ running waiting, Divided State.initial running waiting :=
    ⟨[], [], divided_initial⟩
  refine @Run.invariant _ _ _ _ _ _ (fun state => ∃ running waiting, Divided state running waiting)
    run initially ?_
  rintro before event after ⟨running, waiting, divided⟩ ⟨possible, taken⟩
  obtain ⟨next, running', waiting', performed, dividedNext, _⟩ := divided.perform possible
  obtain rfl := Option.some.inj (performed.symm.trans taken)
  exact ⟨running', waiting', dividedNext⟩

end Events

/-! ## The division in every run -/

/-- Every created task is in the ring, in `task_reap` or destroyed, and in one place only. -/
def EachInOnePlace (state : State) (running waiting : List Nat) : Prop :=
  Ring state.links .main (running.map .task) ∧
    Ring state.links .reap (waiting.map .task) ∧
    (running ++ waiting ++ state.destroyed).Perm (List.range state.allocated)

/--
In every reachable state the tasks are divided between the ring, `task_reap` and those
destroyed, the task that runs is on the ring, nothing that may happen fails, and control
passes along the ring only.  Once `main` has left its loop every task is done and gone.
-/
theorem tasks_accounted_for
    {events : List Event}
    {final : State}
    (run : Run Step State.initial events final) :
    ∃ running waiting,
      EachInOnePlace final running waiting ∧
        OnRing running final.current ∧
        (∀ event,
          Possible final event →
          ∃ after running' waiting',
            perform final event = some after ∧
              EachInOnePlace after running' waiting' ∧
              OnRing running after.current ∧
              OnRing running' after.current) ∧
        (final.finished = true →
          ∀ id < final.allocated, id ∈ final.returned ∧ id ∈ final.destroyed) := by
  obtain ⟨running, waiting, divided⟩ := divided_of_run run
  have placed := divided.placed
  refine ⟨running, waiting, ⟨placed.ring, placed.reap, placed.placed⟩, divided.onRing, ?_, ?_⟩
  · intro event possible
    obtain ⟨after, running', waiting', performed, next, follows⟩ := divided.perform possible
    exact ⟨after, running', waiting', performed,
      ⟨next.placed.ring, next.placed.reap, next.placed.placed⟩, follows, next.onRing⟩
  · intro finished id added
    obtain ⟨rfl, rfl⟩ := divided.finished finished
    have member : id ∈ final.destroyed :=
      placed.placed.mem_iff.mpr (List.mem_range.mpr added)
    exact ⟨placed.returned id (List.mem_append_right _ member), member⟩

/-- One task is added, started by a tick, done, and destroyed by `main`, which then leaves. -/
theorem tasks_accounted_for_one :
    ∃ final running waiting,
      Run Step State.initial [.add, .tick, .complete, .leave, .check] final ∧
        EachInOnePlace final running waiting ∧
        OnRing running final.current ∧
        final.finished = true ∧
        0 ∈ final.returned ∧
        0 ∈ final.destroyed := by
  have run :
      Run Step State.initial ([] ++ [.add] ++ [.tick] ++ [.complete] ++ [.leave] ++ [.check]) _ :=
    .extend (.extend (.extend (.extend (.extend .stop
      ⟨⟨rfl, by decide⟩, rfl⟩)
      ⟨rfl, rfl⟩)
      ⟨⟨rfl, by decide, by decide⟩, rfl⟩)
      ⟨⟨rfl, by decide⟩, rfl⟩)
      ⟨⟨rfl, rfl⟩, rfl⟩
  obtain ⟨running, waiting, placed, onRing, _, finished⟩ := tasks_accounted_for run
  obtain ⟨returned, destroyed⟩ := finished (by decide) 0 (by decide)
  exact ⟨_, running, waiting, run, placed, onRing, by decide, returned, destroyed⟩

end Sysprog.TaskScheduler
