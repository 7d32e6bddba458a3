import Mathlib.Data.Set.Basic
import Mathlib.Tactic.Ring
import Sysprog.QueueHistory

namespace Sysprog.MessageQueue

open Execution MachineWord

/-!
# The waiting room of the queue

For the question which threads sleep, the queue is its list of unread messages.  This
module has that view of the system, which the system with its buffer refines, and what
the calls of a run say about its threads and messages.
-/

variable {Id : Type}

/-- The messages sent and not yet received. -/
def System.unread (system : System Id) : List (List UInt8) :=
  system.sent.drop system.received.length

theorem Delivers.unread_eq
    {size : Nat}
    {system : System Id}
    {unread : List (List UInt8)}
    (delivers : Delivers size system unread) :
    system.unread = unread := by
  rw [System.unread, delivers.order, List.drop_left]

/-! ## The waiting room -/

/-- The threads and the messages they wait for. -/
structure Room (Id : Type) where
  threads : Id → Thread
  unread : List (List UInt8)

/-- All threads outside and nothing to read. -/
def Room.initial : Room Id where
  threads := fun _ => { task := .outside, asleep := none }
  unread := []

/-- What a system shows of itself. -/
def System.room (system : System Id) : Room Id where
  threads := system.threads
  unread := system.unread

/-- The task is a `queue_get` with this `max`. -/
def Wants : Task → Nat → Prop
  | .getting own, max | .skipping own _, max => own = max
  | _, _ => False

/-- The task has to wait for this condition and resumes there. -/
inductive Blocked (size : Nat) (unread : List (List UInt8)) : Task → Condition → Task → Prop where
  | full
      {message : List UInt8}
      (noRoom : size < extent unread + frameSize message) :
      Blocked size unread (.putting message) .writeable (.putting message)
  | empty
      {task : Task}
      {max : Nat}
      (wants : Wants task max)
      (noMessage : unread = []) :
      Blocked size unread task .readable (.getting max)
  | long
      {task : Task}
      {max seq : Nat}
      {message : List UInt8}
      {rest : List (List UInt8)}
      (wants : Wants task max)
      (front : unread = message :: rest)
      (tooLong : max < message.length) :
      Blocked size unread task .writeable (.skipping max seq)
  | unchanged
      {max seq : Nat} :
      Blocked size unread (.skipping max seq) .writeable (.skipping max seq)

variable [DecidableEq Id]

/-- One step of the system as the waiting room sees it. -/
inductive RoomStep (size : Nat) : Room Id → Label Id → Room Id → Prop where
  | call
      {room : Room Id}
      {thread : Id}
      {task : Task}
      (idle : room.threads thread = { task := .outside, asleep := none })
      (callable : Callable task) :
      RoomStep size room (.call thread task)
        { room with
          threads := Function.update room.threads thread { task := task, asleep := none } }
  | wait
      {room : Room Id}
      {thread : Id}
      {task resume : Task}
      {condition : Condition}
      (running : room.threads thread = { task := task, asleep := none })
      (blocked : Blocked size room.unread task condition resume) :
      RoomStep size room (.enter thread none)
        { room with
          threads :=
            Function.update room.threads thread { task := resume, asleep := some condition } }
  | put
      {room : Room Id}
      {thread : Id}
      {message : List UInt8}
      {woken : Option Id}
      (running : room.threads thread = { task := .putting message, asleep := none })
      (fits : extent room.unread + frameSize message ≤ size)
      (signals : Signals room.threads .readable woken) :
      RoomStep size room (.enter thread woken)
        { threads :=
            Function.update (wake room.threads woken) thread
              { task := .outside, asleep := none }
          unread := room.unread ++ [message] }
  | got
      {room : Room Id}
      {thread : Id}
      {task : Task}
      {max : Nat}
      {message : List UInt8}
      {rest : List (List UInt8)}
      {woken : Option Id}
      (running : room.threads thread = { task := task, asleep := none })
      (wants : Wants task max)
      (front : room.unread = message :: rest)
      (short : message.length ≤ max)
      (signals : Signals room.threads .writeable woken) :
      RoomStep size room (.enter thread woken)
        { threads :=
            Function.update (wake room.threads woken) thread
              { task := .outside, asleep := none }
          unread := rest }
  | spurious
      {room : Room Id}
      {thread : Id} :
      RoomStep size room (.spurious thread)
        { room with threads := wake room.threads (some thread) }

/-- How a section ends, seen from the waiting room. -/
def SeenAs (size : Nat) (unread : List (List UInt8)) (task : Task) : Outcome → Prop
  | .wait condition resume => Blocked size unread task condition resume
  | .again _ => False
  | .put _ message => task = .putting message ∧ extent unread + frameSize message ≤ size
  | .got _ message =>
      ∃ max rest, Wants task max ∧ unread = message :: rest ∧ message.length ≤ max

/-- A section of `queue_get`, whichever loop it starts in. -/
theorem queueGet_seen
    {q : Queue}
    {unread : List (List UInt8)}
    {task : Task}
    {max : Nat}
    (holds : Holds q unread)
    (wants : Wants task max) :
    SeenAs q.size unread task (queueGet q max).1 := by
  rcases holds.get max with
    ⟨noMessage, blocked⟩ | ⟨message, rest, front, ⟨tooLong, blocked⟩ | ⟨short, taken⟩⟩
  · rw [blocked]
    exact .empty wants noMessage
  · rw [blocked]
    exact .long wants front tooLong
  · rw [taken]
    exact ⟨max, rest, wants, front, short⟩

/-- Every section of every call. -/
theorem nextSection_seen
    {q : Queue}
    {unread : List (List UInt8)}
    {task : Task}
    {result : Outcome × Accesses}
    (holds : Holds q unread)
    (short : ∀ message, task = .putting message → message.length + 16 < words)
    (taken : nextSection q task = some result) :
    SeenAs q.size unread task result.1 := by
  cases task with
  | outside =>
      simp [nextSection] at taken
  | putting message =>
      obtain rfl : queuePut q message = result := by simpa [nextSection] using taken
      rcases holds.put (short message rfl) with ⟨noRoom, blocked⟩ | ⟨result, enough, written, _⟩
      · rw [blocked]
        exact .full noRoom
      · rw [written]
        exact ⟨rfl, enough⟩
  | getting max =>
      obtain rfl : queueGet q max = result := by simpa [nextSection] using taken
      exact queueGet_seen holds rfl
  | skipping max seq =>
      by_cases unchanged : q.headSeq = seq
      · simp only [nextSection, if_pos unchanged, Option.some.injEq] at taken
        subst taken
        exact .unchanged
      · simp only [nextSection, if_neg unchanged, Option.some.injEq] at taken
        subst taken
        exact queueGet_seen holds rfl

/-- Every step of the system is a step of its waiting room. -/
theorem step_refines
    {size : Nat}
    {before after : System Id}
    {label : Label Id}
    {unread : List (List UInt8)}
    (delivers : Delivers size before unread)
    (step : Step before label after) :
    RoomStep size before.room label after.room := by
  have unreadEq := delivers.unread_eq
  have order := delivers.order
  have seen : ∀ {thread task result}, before.threads thread = { task := task, asleep := none } →
      nextSection before.queue task = some result →
      SeenAs size before.room.unread task result.1 := by
    intro thread task result running taken
    rw [← delivers.sameSize, System.room, unreadEq]
    exact nextSection_seen delivers.holds
      (fun message putting => delivers.short thread message (by rw [running, putting])) taken
  cases step with
  | call idle callable => exact .call idle callable
  | wait running result => exact .wait running (seen running result)
  | again running result => exact (seen running result).elim
  | put running result signals =>
      obtain ⟨rfl, fits⟩ := seen running result
      have appended : ∀ message, (before.sent ++ [message]).drop before.received.length =
          before.unread ++ [message] := by
        intro message
        rw [System.unread, List.drop_append_of_le_length (by rw [order]; simp)]
      simp only [System.room, System.unread, appended]
      exact .put running fits signals
  | @got _ _ _ message _ _ running result signals =>
      obtain ⟨max, rest, wants, front, short⟩ := seen running result
      have dropped : before.sent.drop (before.received ++ [message]).length = rest := by
        rw [List.length_append, ← List.drop_drop]
        exact congrArg (List.drop 1) front
      simp only [System.room, System.unread]
      rw [dropped]
      exact .got running wants front short signals
  | spurious => exact .spurious

/-! ## Who takes part -/

/-- Where a task sleeps. -/
def Sleeps : Task → Condition → Prop
  | .outside, _ => False
  | .putting _, condition => condition = .writeable
  | .getting _, condition => condition = .readable
  | .skipping _ _, condition => condition = .writeable

/-- The calls of the thread are with these lengths and bounds, and it sleeps where it should. -/
structure Proper (lengths maxes : Set Nat) (thread : Thread) : Prop where
  putting : ∀ message, thread.task = .putting message → message.length ∈ lengths
  wanting : ∀ max, Wants thread.task max → max ∈ maxes
  place : ∀ condition, thread.asleep = some condition → Sleeps thread.task condition

/-- A call of the run is with these lengths and bounds. -/
def Within (lengths maxes : Set Nat) : Label Id → Prop
  | .call _ (.putting message) => message.length ∈ lengths
  | .call _ (.getting max) => max ∈ maxes
  | _ => True

/-- All threads and messages come from calls with these lengths and bounds. -/
structure Peopled (size : Nat) (lengths maxes : Set Nat) (room : Room Id) : Prop where
  threads : ∀ thread, Proper lengths maxes (room.threads thread)
  unread : ∀ message ∈ room.unread, message.length ∈ lengths
  fits : extent room.unread ≤ size

namespace Proper

variable {lengths maxes : Set Nat} {threads : Id → Thread}

theorem outside : Proper lengths maxes { task := .outside, asleep := none } where
  putting := by simp
  wanting := by simp [Wants]
  place := by simp

/-- A wake-up keeps the threads proper. -/
theorem woken
    (proper : ∀ thread, Proper lengths maxes (threads thread))
    (woken : Option Id)
    (thread : Id) :
    Proper lengths maxes (wake threads woken thread) where
  putting := by
    rw [task_wake]
    exact (proper thread).putting
  wanting := by
    rw [task_wake]
    exact (proper thread).wanting
  place := by
    intro condition asleep
    rw [task_wake]
    apply (proper thread).place
    cases woken with
    | none => exact asleep
    | some woken =>
        by_cases same : thread = woken
        · subst same
          simp [wake] at asleep
        · rwa [wake, Function.update_of_ne same] at asleep

/-- One thread changes. -/
theorem update
    {state : Thread}
    (proper : ∀ thread, Proper lengths maxes (threads thread))
    (own : Proper lengths maxes state)
    (changed thread : Id) :
    Proper lengths maxes (Function.update threads changed state thread) := by
  by_cases same : thread = changed
  · subst same
    rwa [Function.update_self]
  · rw [Function.update_of_ne same]
    exact proper thread

/-- A thread that has to wait. -/
theorem blocked
    {size : Nat}
    {unread : List (List UInt8)}
    {task resume : Task}
    {condition : Condition}
    (proper : Proper lengths maxes { task := task, asleep := none })
    (blocked : Blocked size unread task condition resume) :
    Proper lengths maxes { task := resume, asleep := some condition } := by
  cases blocked with
  | full _ => exact ⟨proper.putting, by simp [Wants], by simp [Sleeps]⟩
  | empty wants _ =>
      exact ⟨by simp, fun max own => proper.wanting max (own ▸ wants), by simp [Sleeps]⟩
  | long wants _ _ =>
      exact ⟨by simp, fun max own => proper.wanting max (own ▸ wants), by simp [Sleeps]⟩
  | unchanged => exact ⟨by simp, proper.wanting, by simp [Sleeps]⟩

end Proper

variable {size : Nat} {lengths maxes : Set Nat} {before after : Room Id} {label : Label Id}

/-- Every step keeps to the lengths and bounds of its calls. -/
theorem peopled_step
    (peopled : Peopled size lengths maxes before)
    (within : Within lengths maxes label)
    (step : RoomStep size before label after) :
    Peopled size lengths maxes after := by
  obtain ⟨threads, unread, fits⟩ := peopled
  cases step with
  | @call _ task idle callable =>
      refine ⟨Proper.update threads ?_ _, unread, fits⟩
      cases task with
      | putting message => exact ⟨by simpa [Within] using within, by simp [Wants], by simp⟩
      | getting max => exact ⟨by simp, by simpa [Wants, Within] using within, by simp⟩
      | outside => exact callable.elim
      | skipping => exact callable.elim
  | @wait thread _ _ _ running blocked =>
      have proper := threads thread
      rw [running] at proper
      exact ⟨Proper.update threads (proper.blocked blocked) _, unread, fits⟩
  | @put thread message _ running room _ =>
      have proper := threads thread
      rw [running] at proper
      refine ⟨Proper.update (Proper.woken threads _) .outside _, ?_, ?_⟩
      · intro other member
        rcases List.mem_append.mp member with earlier | last
        · exact unread other earlier
        · obtain rfl : other = message := by simpa using last
          exact proper.putting other rfl
      · simp only [extent_append, extent_cons, extent_nil]
        rw [frameSize] at room
        omega
  | got running wants front short _ =>
      rw [front] at unread fits
      rw [extent_cons] at fits
      exact ⟨Proper.update (Proper.woken threads _) .outside _,
        fun other member => unread other (List.mem_cons_of_mem _ member), by simp only; omega⟩
  | @spurious thread => exact ⟨Proper.woken threads (some thread), unread, fits⟩

/-- The rooms of a run whose calls have these lengths and bounds. -/
theorem room_run
    {queue : Queue}
    {pageSize : Nat}
    {labels : List (Label Id)}
    {system : System Id}
    (fresh : queueInit pageSize size = some queue)
    (run : Run Step (System.initial queue) labels system) :
    (∃ unread, Delivers size system unread) ∧
      Run (RoomStep size) Room.initial labels system.room := by
  apply run.history
  · exact ⟨⟨[], delivers_initial fresh⟩, .stop⟩
  · rintro earlier before label after ⟨⟨unread, delivers⟩, rooms⟩ step
    exact ⟨delivers_step ⟨unread, delivers⟩ step, rooms.extend (step_refines delivers step)⟩

/-- What the steps of the waiting room keep holds at the end of a run with such calls. -/
theorem room_invariant
    {property : Room Id → Prop}
    {labels : List (Label Id)}
    {room : Room Id}
    (run : Run (RoomStep size) Room.initial labels room)
    (within : ∀ label ∈ labels, Within lengths maxes label)
    (initially : property Room.initial)
    (preserved :
      ∀ {before label after},
        Peopled size lengths maxes before →
        property before →
        RoomStep size before label after →
        property after) :
    Peopled size lengths maxes room ∧ property room := by
  revert within
  apply run.history
  · intro _
    exact ⟨⟨fun _ => .outside, by simp [Room.initial], by simp [Room.initial]⟩, initially⟩
  · intro earlier before label after kept step within
    obtain ⟨peopled, held⟩ := kept fun other member => within other (List.mem_append_left _ member)
    exact ⟨peopled_step peopled (within label (by simp)) step, preserved peopled held step⟩

end Sysprog.MessageQueue
