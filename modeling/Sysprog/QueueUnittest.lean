import Mathlib.Algebra.BigOperators.Fin
import Mathlib.Algebra.BigOperators.Option
import Mathlib.Data.Fintype.Option
import Sysprog.Potential
import Sysprog.QueueWakeups

namespace Sysprog.MessageQueue

open ByteMemory Execution MachineWord

/-!
# The test of the queue in `ring-buffer/unittest.c`

One publisher sends the numbers from 0 on and several consumers share them out evenly.  All
messages are of one size, so no wake-up is lost, and a program that cannot go on has
finished.  Every step but a wake-up without a signal brings it closer to its end.
-/

/-- `NUM_THREADS`. -/
def numThreads : Nat := 8

/-- `MESSAGES_PER_THREAD`. -/
def messagesPerThread (pageSize : Nat) : Nat := pageSize * 2

/-- The threads of the test: `none` is the publisher and the others are the consumers. -/
abbrev Member (threads : Nat) := Option (Fin threads)

/-- The queue with its threads, and for each thread how many calls it has completed. -/
structure Unittest (threads : Nat) where
  system : System (Member threads)
  count : Member threads → Nat

variable {threads perThread : Nat}

/-- The number of calls in `publisher_loop` and in `consumer_loop`. -/
def limit (perThread : Nat) : Member threads → Nat
  | none => threads * perThread
  | some _ => perThread

/-- The next call of a thread that has completed this many. -/
def request (count : Nat) : Member threads → Task
  | none => .putting (encode 8 count)
  | some _ => .getting 8

/-- The test before its threads have started. -/
def Unittest.initial (queue : Queue) : Unittest threads where
  system := System.initial queue
  count := fun _ => 0

/-- One step of the test: the loops count the calls that have returned. -/
inductive UnittestStep (perThread : Nat) :
    Unittest threads → Label (Member threads) → Unittest threads → Prop where
  | call
      {test : Unittest threads}
      {thread : Member threads}
      {system : System (Member threads)}
      (more : test.count thread < limit perThread thread)
      (step : Step test.system (.call thread (request (test.count thread) thread)) system) :
      UnittestStep perThread test (.call thread (request (test.count thread) thread))
        { test with system := system }
  | enter
      {test : Unittest threads}
      {thread : Member threads}
      {woken : Option (Member threads)}
      {system : System (Member threads)}
      (step : Step test.system (.enter thread woken) system) :
      UnittestStep perThread test (.enter thread woken)
        { system := system
          count :=
            if (system.threads thread).task = .outside then
              Function.update test.count thread (test.count thread + 1)
            else
              test.count }
  | spurious
      {test : Unittest threads}
      {thread : Member threads}
      {system : System (Member threads)}
      (step : Step test.system (.spurious thread) system) :
      UnittestStep perThread test (.spurious thread) { test with system := system }

/-- All loops have ended. -/
def Unittest.Finished (perThread : Nat) (test : Unittest threads) : Prop :=
  ∀ thread,
    test.system.threads thread = { task := .outside, asleep := none } ∧
      test.count thread = limit perThread thread

/-! ## Where the threads stand -/

/--
The publisher has sent the numbers below its count, the consumers have received as many
messages as they count, and a thread is between two calls or in its next one.
-/
structure Counted (perThread size : Nat) (test : Unittest threads) : Prop where
  delivers : ∃ unread, Delivers size test.system unread
  sent : test.system.sent = (List.range (test.count none)).map (encode 8)
  received : test.system.received.length = ∑ index, test.count (some index)
  within : ∀ thread, test.count thread ≤ limit perThread thread
  threads :
    ∀ thread,
      test.system.threads thread = { task := .outside, asleep := none } ∨
        ((test.system.threads thread).task = request (test.count thread) thread ∧
          test.count thread < limit perThread thread)

section Steps

variable {size : Nat} {test : Unittest threads} {thread : Member threads}

/-- A thread that runs is in its next call. -/
theorem Counted.running
    {task : Task}
    (counted : Counted perThread size test)
    (running : test.system.threads thread = { task := task, asleep := none })
    (inside : task ≠ .outside) :
    task = request (test.count thread) thread ∧
      test.count thread < limit perThread thread := by
  rcases counted.threads thread with outside | ⟨called, more⟩
  · rw [running] at outside
    exact (inside (congrArg Thread.task outside)).elim
  · rw [running] at called
    exact ⟨called, more⟩

/-- All messages in the queue are eight bytes long. -/
theorem Counted.unread_length
    {unread : List (List UInt8)}
    {message : List UInt8}
    (counted : Counted perThread size test)
    (delivers : Delivers size test.system unread)
    (member : message ∈ unread) :
    message.length = 8 := by
  have sent : message ∈ test.system.sent := by
    rw [delivers.order]
    exact List.mem_append_right _ member
  rw [counted.sent] at sent
  obtain ⟨number, _, rfl⟩ := List.mem_map.mp sent
  exact length_encode 8 number

/-- A request is not `outside`. -/
theorem request_ne_outside (count : Nat) (thread : Member threads) :
    request count thread ≠ .outside := by
  cases thread <;> simp [request]

/-- What a section of the test can end with. -/
theorem Counted.outcome
    {task : Task}
    {outcome : Outcome}
    {accesses : Accesses}
    (counted : Counted perThread size test)
    (running : test.system.threads thread = { task := task, asleep := none })
    (result : nextSection test.system.queue task = some (outcome, accesses)) :
    test.count thread < limit perThread thread ∧
      match outcome with
      | .wait _ resume => resume = request (test.count thread) thread
      | .again _ => False
      | .put _ message => thread = none ∧ message = encode 8 (test.count none)
      | .got _ _ => thread ≠ none := by
  obtain ⟨unread, delivers⟩ := counted.delivers
  have inside : task ≠ .outside := by
    rintro rfl
    simp [nextSection] at result
  obtain ⟨rfl, more⟩ := counted.running running inside
  refine ⟨more, ?_⟩
  have seen := nextSection_seen delivers.holds
    (fun message putting => delivers.short thread message (by rw [running, putting])) result
  cases thread with
  | none =>
      cases outcome with
      | wait condition resume =>
          cases seen with
          | full _ => rfl
          | empty wants _ => exact wants.elim
          | long wants _ _ => exact wants.elim
      | again resume => exact seen
      | put queue message => exact ⟨rfl, (Task.putting.inj seen.1).symm⟩
      | got queue message =>
          obtain ⟨_, _, wants, _⟩ := seen
          exact wants.elim
  | some index =>
      cases outcome with
      | wait condition resume =>
          cases seen with
          | empty wants _ =>
              obtain rfl : 8 = _ := wants
              rfl
          | long wants front tooLong =>
              -- No message is longer than what the consumers ask for.
              obtain rfl : 8 = _ := wants
              have length := counted.unread_length delivers
                (front ▸ List.mem_cons_self)
              omega
      | again resume => exact seen
      | put queue message => exact absurd seen.1 (by simp [request])
      | got queue message => simp

end Steps

/-! ## Every step leads on -/

/-- How far a thread has got with its next call: not in it, in it and awake, or asleep. -/
def stage (thread : Thread) : Nat :=
  if thread.task = .outside then 0 else if thread.asleep = none then 1 else 2

/-- What a thread still has to do. -/
def weight (perThread : Nat) (test : Unittest threads) (thread : Member threads) : Nat :=
  3 * (limit perThread thread - test.count thread) - stage (test.system.threads thread)

/-- What all threads still have to do. -/
def potential (perThread : Nat) (test : Unittest threads) : Nat :=
  ∑ thread, weight perThread test thread

/-- A wake-up without a signal. -/
def Label.isSpurious {Id : Type} : Label Id → Bool
  | .spurious _ => true
  | _ => false

/-- What a step uses up of the potential. -/
def Label.spent {Id : Type} (label : Label Id) : Nat :=
  if label.isSpurious then 0 else 1

/-- What a step adds to the potential. -/
def Label.gained {Id : Type} (label : Label Id) : Nat :=
  if label.isSpurious then 1 else 0

section Potential

variable {size : Nat} {before after : Unittest threads} {thread other : Member threads}

/-- A wake-up takes a thread at most one stage back. -/
theorem stage_wake
    (states : Member threads → Thread)
    (woken : Option (Member threads)) :
    stage (states other) ≤
      stage (wake states woken other) + if woken = some other then 1 else 0 := by
  cases woken with
  | none =>
      exact Nat.le_add_right _ _
  | some woken =>
      by_cases same : woken = other
      · subst same
        simp only [wake, Function.update_self, stage, if_true]
        split_ifs <;> omega
      · rw [wake, Function.update_of_ne (Ne.symm same)]
        exact Nat.le_add_right _ _

/-- Nothing changes for a thread that does not move but for a wake-up. -/
theorem weight_other
    {woken : Option (Member threads)}
    (sameCount : after.count other = before.count other)
    (sameThread :
      after.system.threads other = wake before.system.threads woken other) :
    weight perThread after other ≤
      weight perThread before other + if woken = some other then 1 else 0 := by
  have staged := @stage_wake _ other before.system.threads woken
  rw [weight, weight, sameCount, sameThread]
  omega

end Potential

section Step

variable {size : Nat} {before after : Unittest threads} {label : Label (Member threads)}

/-- The threads after one of them has changed and another one may have been woken. -/
theorem Counted.threads_update
    {count : Member threads → Nat}
    {thread : Member threads}
    {state : Thread}
    {woken : Option (Member threads)}
    (counted : Counted perThread size before)
    (others : ∀ other, other ≠ thread → count other = before.count other)
    (own :
      state = { task := .outside, asleep := none } ∨
        (state.task = request (count thread) thread ∧ count thread < limit perThread thread))
    (other : Member threads) :
    Function.update (wake before.system.threads woken) thread state other =
        { task := .outside, asleep := none } ∨
      ((Function.update (wake before.system.threads woken) thread state other).task =
          request (count other) other ∧
        count other < limit perThread other) := by
  by_cases same : other = thread
  · subst same
    rw [Function.update_self]
    exact own
  · rw [Function.update_of_ne same, others other same, task_wake]
    rcases counted.threads other with outside | called
    · left
      cases woken with
      | none =>
          exact outside
      | some woken =>
          by_cases isWoken : other = woken
          · subst isWoken
            simp [wake, outside]
          · rw [wake, Function.update_of_ne isWoken]
            exact outside
    · exact Or.inr called

/-- A thread starts its next call. -/
theorem Counted.call
    {thread : Member threads}
    {system : System (Member threads)}
    (counted : Counted perThread size before)
    (more : before.count thread < limit perThread thread)
    (step : Step before.system (.call thread (request (before.count thread) thread)) system) :
    Counted perThread size { before with system := system } ∧
      potential perThread { before with system := system } + 1 ≤ potential perThread before := by
  have delivers := delivers_step counted.delivers step
  cases step with
  | call idle callable =>
      refine ⟨⟨delivers, counted.sent, counted.received, counted.within, ?_⟩, ?_⟩
      · exact @Counted.threads_update _ _ _ _ before.count thread _ none counted (fun _ _ => rfl)
          (Or.inr ⟨rfl, more⟩)
      · refine @sum_of_step _ _ _ _ _ 1 thread none ?_
        intro other
        by_cases same : other = thread
        · subst same
          have inside := request_ne_outside (before.count other) other
          simp only [weight, stage, idle, Function.update_self, if_true, if_neg inside]
          omega
        · rw [if_neg same]
          exact weight_other rfl (by simp [wake, Function.update_of_ne same])

/-- A thread goes to sleep. -/
theorem Counted.wait
    {thread : Member threads}
    {task resume : Task}
    {condition : Condition}
    {accesses : Accesses}
    (counted : Counted perThread size before)
    (running : before.system.threads thread = { task := task, asleep := none })
    (result : nextSection before.system.queue task = some (.wait condition resume, accesses))
    (after : Unittest threads)
    (delivers : ∃ unread, Delivers size after.system unread)
    (sent : after.system.sent = before.system.sent)
    (received : after.system.received = before.system.received)
    (states :
      after.system.threads =
        Function.update before.system.threads thread
          { task := resume, asleep := some condition })
    (sameCount : after.count = before.count) :
    Counted perThread size after ∧
      potential perThread after + 1 ≤ potential perThread before := by
  have more := (counted.outcome running result).1
  have resumed : resume = request (before.count thread) thread :=
    (counted.outcome running result).2
  subst resumed
  have inside := request_ne_outside (before.count thread) thread
  refine ⟨⟨delivers, ?_, ?_, ?_, ?_⟩, ?_⟩
  · rw [sent, sameCount]
    exact counted.sent
  · rw [received, sameCount]
    exact counted.received
  · rw [sameCount]
    exact counted.within
  · rw [states, sameCount]
    exact @Counted.threads_update _ _ _ _ before.count thread _ none counted (fun _ _ => rfl)
      (Or.inr ⟨rfl, more⟩)
  · refine @sum_of_step _ _ _ _ _ 1 thread none ?_
    intro other
    by_cases same : other = thread
    · subst same
      have called : task ≠ .outside := by
        rintro rfl
        simp [nextSection] at result
      simp only [weight, stage, running, states, sameCount, Function.update_self, if_true,
        if_neg inside, if_neg called, if_false, reduceCtorEq]
      omega
    · rw [if_neg same]
      refine weight_other (congrFun sameCount other) ?_
      rw [states, Function.update_of_ne same]
      rfl

/-- A thread returns from its call and signals. -/
theorem Counted.potential_return
    {thread : Member threads}
    {task : Task}
    {woken : Option (Member threads)}
    (running : before.system.threads thread = { task := task, asleep := none })
    (called : task ≠ .outside)
    (more : before.count thread < limit perThread thread)
    (states :
      after.system.threads =
        Function.update (wake before.system.threads woken) thread
          { task := .outside, asleep := none })
    (count :
      after.count = Function.update before.count thread (before.count thread + 1)) :
    potential perThread after + 1 ≤ potential perThread before := by
  have paid : potential perThread after + 2 ≤
      potential perThread before + if woken = none then 0 else 1 := by
    refine sum_of_step thread woken ?_
    intro other
    by_cases same : other = thread
    · subst same
      simp only [weight, stage, running, states, count, Function.update_self, if_true,
        if_neg called]
      omega
    · rw [if_neg same]
      refine weight_other ?_ ?_
      · rw [count, Function.update_of_ne same]
      · rw [states, Function.update_of_ne same]
  split at paid <;> omega

end Step

section Runs

variable {size : Nat} {before after : Unittest threads} {label : Label (Member threads)}

/-- A section of the test keeps the counts and leads on. -/
theorem Counted.enter
    {thread : Member threads}
    {woken : Option (Member threads)}
    {system : System (Member threads)}
    (counted : Counted perThread size before)
    (step : Step before.system (.enter thread woken) system)
    (after : Unittest threads)
    (sameSystem : after.system = system)
    (count :
      after.count =
        if (system.threads thread).task = .outside then
          Function.update before.count thread (before.count thread + 1)
        else
          before.count) :
    Counted perThread size after ∧
      potential perThread after + 1 ≤ potential perThread before := by
  have delivers := delivers_step counted.delivers step
  rw [← sameSystem] at delivers
  cases step with
  | @wait _ task resume condition accesses running result =>
      have resumed : resume = request (before.count thread) thread :=
        (counted.outcome running result).2
      have inside : resume ≠ .outside := by
        rw [resumed]
        exact request_ne_outside _ _
      simp only [Function.update_self, if_neg inside] at count
      exact counted.wait running result after delivers (by rw [sameSystem]) (by rw [sameSystem])
        (by rw [sameSystem]) count
  | again running result =>
      exact (counted.outcome running result).2.elim
  | @put _ task queue message accesses woken running result signals =>
      have more := (counted.outcome running result).1
      obtain ⟨rfl, rfl⟩ : thread = none ∧ message = encode 8 (before.count none) :=
        (counted.outcome running result).2
      have called : task ≠ .outside := by
        rintro rfl
        simp [nextSection] at result
      simp only [Function.update_self, if_true] at count
      refine ⟨⟨delivers, ?_, ?_, ?_, ?_⟩, ?_⟩
      · rw [sameSystem, count, Function.update_self, List.range_succ, List.map_append,
          ← counted.sent]
        rfl
      · rw [sameSystem]
        refine counted.received.trans (Finset.sum_congr rfl ?_)
        intro index _
        rw [count, Function.update_of_ne (Option.some_ne_none index)]
      · intro other
        by_cases same : other = none
        · subst same
          rw [count, Function.update_self]
          exact more
        · rw [count, Function.update_of_ne same]
          exact counted.within other
      · rw [sameSystem]
        exact counted.threads_update
          (fun other different => by rw [count, Function.update_of_ne different]) (Or.inl rfl)
      · exact Counted.potential_return running called more (by rw [sameSystem]) count
  | @got _ task queue message accesses woken running result signals =>
      have more := (counted.outcome running result).1
      have consumer : thread ≠ none := (counted.outcome running result).2
      obtain ⟨index, rfl⟩ := Option.ne_none_iff_exists'.mp consumer
      have called : task ≠ .outside := by
        rintro rfl
        simp [nextSection] at result
      simp only [Function.update_self, if_true] at count
      refine ⟨⟨delivers, ?_, ?_, ?_, ?_⟩, ?_⟩
      · rw [sameSystem, count, Function.update_of_ne (Option.some_ne_none index).symm]
        exact counted.sent
      · have counts : (fun other => after.count (some other)) =
            Function.update (fun other => before.count (some other)) index
              (before.count (some index) + 1) := by
          funext other
          rw [count]
          by_cases same : other = index
          · subst same
            rw [Function.update_self, Function.update_self]
          · rw [Function.update_of_ne same,
              Function.update_of_ne (fun equal => same (Option.some.inj equal))]
        rw [sameSystem, counts, Finset.sum_update_of_mem (Finset.mem_univ index),
          List.length_append, counted.received,
          ← Finset.add_sum_erase Finset.univ _ (Finset.mem_univ index),
          Finset.sdiff_singleton_eq_erase]
        simp only [List.length_singleton]
        omega
      · intro other
        by_cases same : other = some index
        · subst same
          rw [count, Function.update_self]
          exact more
        · rw [count, Function.update_of_ne same]
          exact counted.within other
      · rw [sameSystem]
        exact counted.threads_update
          (fun other different => by rw [count, Function.update_of_ne different]) (Or.inl rfl)
      · exact Counted.potential_return running called more (by rw [sameSystem]) count

/-- Every step keeps the counts, and pays for itself unless it is a wake-up without a signal. -/
theorem counted_step
    (counted : Counted perThread size before)
    (step : UnittestStep perThread before label after) :
    Counted perThread size after ∧
      potential perThread after + label.spent ≤ potential perThread before + label.gained := by
  cases step with
  | call more step => exact counted.call more step
  | enter step => exact counted.enter step _ rfl rfl
  | @spurious thread system step =>
      have delivers := delivers_step counted.delivers step
      cases step with
      | spurious =>
          refine ⟨⟨delivers, counted.sent, counted.received, counted.within, ?_⟩, ?_⟩
          · intro other
            rcases counted.threads other with outside | called
            · left
              by_cases same : other = thread
              · subst same
                simp [wake, outside]
              · simp [wake, Function.update_of_ne same, outside]
            · right
              rw [task_wake]
              exact called
          · refine @sum_of_step _ _ _ _ _ 0 thread (some thread) ?_
            intro other
            rw [ite_self]
            exact weight_other rfl rfl

/-- Nothing has been counted yet. -/
theorem counted_initial
    {pageSize : Nat}
    {queue : Queue}
    (fresh : queueInit pageSize size = some queue) :
    Counted perThread size (Unittest.initial queue : Unittest threads) where
  delivers := ⟨[], delivers_initial fresh⟩
  sent := rfl
  received := by simp [Unittest.initial, System.initial]
  within := fun _ => Nat.zero_le _
  threads := fun _ => Or.inl rfl

/-- The calls of all threads, three steps each. -/
theorem potential_initial
    {queue : Queue} :
    potential perThread (Unittest.initial queue : Unittest threads) =
      6 * (threads * perThread) := by
  simp [potential, weight, stage, Unittest.initial, System.initial, limit, Fintype.sum_option]
  ring

/-- The steps of the queue in a run of the test. -/
theorem run_system
    {queue : Queue}
    {labels : List (Label (Member threads))}
    {test : Unittest threads}
    (run : Run (UnittestStep perThread) (Unittest.initial queue) labels test) :
    Run Step (System.initial queue) labels test.system := by
  induction run with
  | stop =>
      exact .stop
  | extend _ last inductionHypothesis =>
      cases last with
      | call _ step => exact inductionHypothesis.extend step
      | enter step => exact inductionHypothesis.extend step
      | spurious step => exact inductionHypothesis.extend step

end Runs

/-! ## The test finishes -/

section Progress

variable
  {pageSize size : Nat}
  {queue : Queue}
  {labels : List (Label (Member threads))}
  {test : Unittest threads}
  {thread : Member threads}

/-- The calls of a run are those of the loops. -/
theorem calls_of_run
    {task : Task}
    (run : Run (UnittestStep perThread) (Unittest.initial queue) labels test)
    (member : .call thread task ∈ labels) :
    ∃ count, task = request count thread := by
  induction run with
  | stop =>
      simp at member
  | extend _ last inductionHypothesis =>
      rcases List.mem_append.mp member with earlier | isLast
      · exact inductionHypothesis earlier
      · obtain rfl := List.mem_singleton.mp isLast
        cases last with
        | call _ _ => exact ⟨_, rfl⟩

/-- All messages are of one size, and all consumers ask for that size, so no wake-up is lost. -/
theorem not_lostWakeup_of_run
    (fresh : queueInit pageSize size = some queue)
    (run : Run (UnittestStep perThread) (Unittest.initial queue) labels test) :
    ¬ LostWakeup test.system := by
  have lengths : ∀ length ∈ putLengths labels, length = 8 := by
    rintro _ ⟨thread, message, member, rfl⟩
    obtain ⟨count, same⟩ := calls_of_run run member
    cases thread with
    | none =>
        obtain rfl := Task.putting.inj same
        exact length_encode 8 count
    | some index =>
        simp [request] at same
  have maxes : ∀ max ∈ getMaxes labels, max = 8 := by
    rintro max ⟨thread, member⟩
    obtain ⟨count, same⟩ := calls_of_run run member
    cases thread with
    | none =>
        simp [request] at same
    | some index =>
        exact Task.getting.inj same
  refine not_lostWakeup_of_alike fresh ?_ ?_ (run_system run)
  · intro one oneMember other otherMember
    rw [lengths one oneMember, lengths other otherMember]
  · intro length _ one oneMember other otherMember short
    rw [maxes other otherMember, ← maxes one oneMember]
    exact short

/-- There is always somebody, or nobody, to signal. -/
theorem exists_signals
    {Id : Type}
    (states : Id → Thread)
    (condition : Condition) :
    ∃ woken, Signals states condition woken := by
  by_cases sleeper : ∃ thread, (states thread).asleep = some condition
  · obtain ⟨thread, asleep⟩ := sleeper
    exact ⟨some thread, asleep⟩
  · exact ⟨none, fun thread asleep => sleeper ⟨thread, asleep⟩⟩

/-- A thread that is awake in a call can run its next section. -/
theorem exists_enter
    {Id : Type}
    [DecidableEq Id]
    {system : System Id}
    {thread : Id}
    {task : Task}
    (running : system.threads thread = { task := task, asleep := none })
    (inside : task ≠ .outside) :
    ∃ woken after, Step system (.enter thread woken) after := by
  obtain ⟨⟨outcome, accesses⟩, result⟩ : ∃ result, nextSection system.queue task = some result := by
    cases task with
    | outside => exact (inside rfl).elim
    | putting message => exact ⟨_, rfl⟩
    | getting max => exact ⟨_, rfl⟩
    | skipping max seq =>
        rw [nextSection]
        split <;> exact ⟨_, rfl⟩
  cases outcome with
  | wait condition resume => exact ⟨none, _, .wait running result⟩
  | again resume => exact ⟨none, _, .again running result⟩
  | put queue message =>
      obtain ⟨woken, signals⟩ := exists_signals system.threads .readable
      exact ⟨woken, _, .put running result signals⟩
  | got queue message =>
      obtain ⟨woken, signals⟩ := exists_signals system.threads .writeable
      exact ⟨woken, _, .got running result signals⟩

/-- Consumers that are done have received all that was to be sent. -/
theorem Counted.all_received
    (counted : Counted perThread size test)
    (done : ∀ index, test.count (some index) = perThread) :
    test.system.received.length = threads * perThread := by
  rw [counted.received, Finset.sum_congr rfl fun index _ => done index]
  simp

/-- Only wake-ups without a signal are left. -/
def Stuck (perThread : Nat) (test : Unittest threads) : Prop :=
  ∀ label after, label.isSpurious = false → ¬ UnittestStep perThread test label after

/-- Whoever is between two calls has no further one to make. -/
theorem Stuck.count_eq
    (stuck : Stuck perThread test)
    (counted : Counted perThread size test)
    (outside : test.system.threads thread = { task := .outside, asleep := none }) :
    test.count thread = limit perThread thread := by
  by_contra unequal
  have more : test.count thread < limit perThread thread :=
    Nat.lt_of_le_of_ne (counted.within thread) unequal
  refine stuck (.call thread (request (test.count thread) thread)) _ rfl
    (.call more (.call outside ?_))
  cases thread with
  | none => exact show (encode 8 _).length + 16 < words by rw [length_encode]; decide
  | some index => exact show 8 < words by decide

/-- Whoever is in a call sleeps. -/
theorem Stuck.asleep
    (stuck : Stuck perThread test)
    (called : (test.system.threads thread).task = request (test.count thread) thread) :
    (test.system.threads thread).asleep ≠ none := by
  intro awake
  obtain ⟨woken, after, step⟩ := exists_enter
    (show test.system.threads thread =
        { task := request (test.count thread) thread, asleep := none } by
      rw [← called, ← awake])
    (request_ne_outside _ _)
  exact stuck _ _ rfl (.enter step)

/-- Whoever is in a call cannot proceed, since no wake-up was lost. -/
theorem Stuck.waits
    (stuck : Stuck perThread test)
    (counted : Counted perThread size test)
    (kept : ¬ LostWakeup test.system)
    (called : (test.system.threads thread).task = request (test.count thread) thread) :
    ¬ CanProceed test.system.queue (test.system.threads thread).task := by
  intro proceeds
  apply kept
  refine ⟨fun other => ?_, thread, stuck.asleep called, proceeds⟩
  rcases counted.threads other with outside | ⟨otherCalled, _⟩
  · exact Or.inl (congrArg Thread.task outside)
  · exact Or.inr (stuck.asleep otherCalled)

/-- A publisher that waits leaves messages unread. -/
theorem Stuck.publisher_waits
    (stuck : Stuck perThread test)
    (counted : Counted perThread size test)
    (kept : ¬ LostWakeup test.system)
    (large : 24 ≤ size)
    {unread : List (List UInt8)}
    (delivers : Delivers size test.system unread)
    (called : (test.system.threads none).task = .putting (encode 8 (test.count none))) :
    unread ≠ [] := by
  rintro rfl
  have blocked := stuck.waits counted kept called
  rw [called] at blocked
  apply blocked
  refine (canProceed_putting_iff delivers.holds ?_).mpr ?_
  · rw [length_encode]
    decide
  · rw [delivers.sameSize, frameSize, length_encode, extent_nil]
    omega

/-- A consumer that waits has no message to read. -/
theorem Stuck.consumer_waits
    (stuck : Stuck perThread test)
    (counted : Counted perThread size test)
    (kept : ¬ LostWakeup test.system)
    {index : Fin threads}
    {unread : List (List UInt8)}
    (delivers : Delivers size test.system unread)
    (called : (test.system.threads (some index)).task = .getting 8) :
    unread = [] := by
  have blocked := stuck.waits counted kept called
  cases unread with
  | nil => rfl
  | cons message rest =>
      refine (blocked ((canProceed_wants_iff delivers.holds
        (show Wants _ 8 by rw [called]; rfl)).mpr ⟨message, rfl, ?_⟩)).elim
      exact Nat.le_of_eq (counted.unread_length delivers List.mem_cons_self)

/-- A publisher that waits has let the consumers receive everything, so it has sent it all. -/
theorem Stuck.publisher_done
    (stuck : Stuck perThread test)
    (counted : Counted perThread size test)
    (kept : ¬ LostWakeup test.system)
    (large : 24 ≤ size) :
    test.system.threads none = { task := .outside, asleep := none } := by
  obtain ⟨unread, delivers⟩ := counted.delivers
  have order := congrArg List.length delivers.order
  rw [List.length_append, counted.sent, List.length_map, List.length_range] at order
  rcases counted.threads none with outside | ⟨called, more⟩
  · exact outside
  · have occupied := stuck.publisher_waits counted kept large delivers called
    have received : test.system.received.length = threads * perThread := by
      apply counted.all_received
      intro index
      rcases counted.threads (some index) with outside | ⟨consumerCalled, _⟩
      · exact stuck.count_eq counted outside
      · exact (occupied (stuck.consumer_waits counted kept delivers consumerCalled)).elim
    rw [limit] at more
    omega

/-- Nor does a consumer wait: the others cannot have received all that was sent. -/
theorem Stuck.consumer_done
    (stuck : Stuck perThread test)
    (counted : Counted perThread size test)
    (kept : ¬ LostWakeup test.system)
    (large : 24 ≤ size)
    (index : Fin threads) :
    test.system.threads (some index) = { task := .outside, asleep := none } := by
  obtain ⟨unread, delivers⟩ := counted.delivers
  have order := congrArg List.length delivers.order
  rw [List.length_append, counted.sent, List.length_map, List.length_range] at order
  rcases counted.threads (some index) with outside | ⟨called, more⟩
  · exact outside
  · obtain rfl := stuck.consumer_waits counted kept delivers called
    have sentAll := stuck.count_eq counted (stuck.publisher_done counted kept large)
    have fewer : ∑ other, test.count (some other) < ∑ _ : Fin threads, perThread := by
      apply Finset.sum_lt_sum
      · exact fun other _ => counted.within (some other)
      · exact ⟨index, Finset.mem_univ index, more⟩
    rw [← counted.received] at fewer
    simp only [Finset.sum_const, Finset.card_univ, Fintype.card_fin, smul_eq_mul] at fewer
    rw [limit] at sentAll
    simp only [List.length_nil] at order
    omega

/-- A test that cannot go on has finished. -/
theorem unittest_progress
    (fresh : queueInit pageSize size = some queue)
    (large : 24 ≤ size)
    (run : Run (UnittestStep perThread) (Unittest.initial queue) labels test) :
    test.Finished perThread ∨
      ∃ label after, label.isSpurious = false ∧ UnittestStep perThread test label after := by
  by_cases stuck : Stuck perThread test
  · left
    have counted : Counted perThread size test :=
      run.invariant (counted_initial fresh) fun counted step => (counted_step counted step).1
    have kept := not_lostWakeup_of_run fresh run
    intro thread
    have outside : test.system.threads thread = { task := .outside, asleep := none } := by
      cases thread with
      | none => exact stuck.publisher_done counted kept large
      | some index => exact stuck.consumer_done counted kept large index
    exact ⟨outside, stuck.count_eq counted outside⟩
  · right
    simp only [Stuck, not_forall, not_not] at stuck
    obtain ⟨label, after, real, step⟩ := stuck
    exact ⟨label, after, real, step⟩

end Progress

/-- What the steps of a run use up are the steps but for the wake-ups without a signal. -/
theorem sum_spent {Id : Type} (labels : List (Label Id)) :
    (labels.map Label.spent).sum = labels.countP (fun label => !label.isSpurious) := by
  induction labels with
  | nil =>
      rfl
  | cons label rest inductionHypothesis =>
      rw [List.map_cons, List.sum_cons, inductionHypothesis, List.countP_cons, Label.spent]
      cases label.isSpurious <;> simp [Nat.add_comm]

/-- What they add is the number of wake-ups without a signal. -/
theorem sum_gained {Id : Type} (labels : List (Label Id)) :
    (labels.map Label.gained).sum = labels.countP Label.isSpurious := by
  induction labels with
  | nil =>
      rfl
  | cons label rest inductionHypothesis =>
      rw [List.map_cons, List.sum_cons, inductionHypothesis, List.countP_cons, Label.gained]
      cases label.isSpurious <;> simp [Nat.add_comm]

/--
Every run of the test takes a bounded number of steps, apart from wake-ups without a signal
and as many steps again.  It can go on until all loops have ended.  The consumers receive the
numbers in order, and in the end all of them, each of them once.
-/
theorem unittest_finishes
    {pageSize : Nat}
    {queue : Queue}
    {labels : List (Label (Member numThreads))}
    {test : Unittest numThreads}
    (fresh : queueInit pageSize pageSize = some queue)
    (large : 24 ≤ pageSize)
    (run :
      Run (UnittestStep (messagesPerThread pageSize)) (Unittest.initial queue) labels test) :
    labels.countP (fun label => !label.isSpurious) ≤
        6 * (numThreads * messagesPerThread pageSize) + labels.countP Label.isSpurious ∧
      (test.Finished (messagesPerThread pageSize) ∨
        ∃ label after,
          label.isSpurious = false ∧
            UnittestStep (messagesPerThread pageSize) test label after) ∧
      test.system.received <+:
        (List.range (numThreads * messagesPerThread pageSize)).map (encode 8) ∧
      (test.Finished (messagesPerThread pageSize) →
        test.system.received =
          (List.range (numThreads * messagesPerThread pageSize)).map (encode 8)) := by
  obtain ⟨counted, paid⟩ := run.amortised (counted_initial fresh) counted_step
  rw [potential_initial, sum_spent, sum_gained] at paid
  have sentOf : ∀ {number}, number ≤ numThreads * messagesPerThread pageSize →
      (List.range number).map (encode 8) <+:
        (List.range (numThreads * messagesPerThread pageSize)).map (encode 8) := by
    intro number below
    have start : List.range number =
        (List.range (numThreads * messagesPerThread pageSize)).take number := by
      rw [List.take_range, Nat.min_eq_left below]
    rw [start, List.map_take]
    exact List.take_prefix _ _
  obtain ⟨unread, delivers⟩ := counted.delivers
  have received : test.system.received <+: test.system.sent := ⟨unread, delivers.order.symm⟩
  refine ⟨by omega, unittest_progress fresh large run, ?_, ?_⟩
  · rw [counted.sent] at received
    exact received.trans (sentOf (counted.within none))
  · intro finished
    have all := counted.all_received fun index => (finished (some index)).2
    have sent := counted.sent
    rw [(finished none).2] at sent
    rw [sent] at received
    apply received.eq_of_length
    rw [all, List.length_map, List.length_range]
    rfl

/-- The publisher puts the first number into a queue of one page. -/
theorem onePage_unittest :
    ∃ test : Unittest numThreads,
      Run (UnittestStep (messagesPerThread 4096)) (Unittest.initial onePage)
          [.call none (.putting (encode 8 0)), .enter none none] test ∧
        test.system.sent = [encode 8 0] := by
  have start :
      Run (UnittestStep (messagesPerThread 4096)) (Unittest.initial onePage : Unittest numThreads)
        [] (Unittest.initial onePage) :=
    .stop
  have called := start.extend
    (@UnittestStep.call _ _ _ none _ (show 0 < numThreads * messagesPerThread 4096 by decide)
      (Step.call rfl (show (encode 8 0).length + 16 < words by decide)))
  have put := called.extend
    (.enter (Step.put rfl rfl (by rintro (_ | _) asleep <;> cases asleep) :
      Step _ (.enter none none) _))
  exact ⟨_, put, rfl⟩

/-- The guarantees after the first message. -/
theorem onePage_unittest_goes_on :
    ∃ test : Unittest numThreads,
      test.system.sent = [encode 8 0] ∧
        (test.Finished (messagesPerThread 4096) ∨
          ∃ label after,
            label.isSpurious = false ∧
              UnittestStep (messagesPerThread 4096) test label after) ∧
        test.system.received <+:
          (List.range (numThreads * messagesPerThread 4096)).map (encode 8) := by
  obtain ⟨test, run, sent⟩ := onePage_unittest
  have fresh : queueInit 4096 4096 = some onePage := by
    rfl
  obtain ⟨_, onward, received, _⟩ := unittest_finishes fresh (by decide) run
  exact ⟨test, sent, onward, received⟩

end Sysprog.MessageQueue
