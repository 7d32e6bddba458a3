import Sysprog.Execution
import Sysprog.MachineWord
import Sysprog.MirroredBuffer

namespace Sysprog.MessageQueue

open ByteMemory Execution MachineWord MirroredBuffer

/-!
# The blocking message queue of `ring-buffer/queue.h`

The queue's buffer is mapped twice in a row.  A message is stored as a header with
its length and sequence number, followed by its bytes.  Calls are made of
lock-protected sections, which run from taking the mutex to the next
`pthread_cond_wait` or to the unlock; each section is one step of the system.
-/

/-- `message_t`, the header of a stored message. -/
structure Message where
  len : Nat
  seq : Nat
  deriving Repr, DecidableEq

namespace Message

/-- The 16 bytes of a header in memory. -/
def bytes (m : Message) : List UInt8 :=
  encode 8 m.len ++ encode 8 m.seq

/-- The header that 16 bytes stand for. -/
def ofBytes (bytes : List UInt8) : Message :=
  { len := decode (bytes.take 8), seq := decode (bytes.drop 8) }

end Message

/-- `queue_t`; `cells` is the memory behind both mappings of `buffer`. -/
structure Queue where
  cells : Memory
  size : Nat
  head : Nat
  tail : Nat
  headSeq : Nat
  tailSeq : Nat

/--
`queue_init`.  `none` is `queue_error`: the size is not a multiple of the page size,
or `mmap` refuses an empty mapping or one beyond the address space.
-/
def queueInit (pageSize s : Nat) : Option Queue :=
  if s % pageSize ≠ 0 then
    none
  else if s = 0 ∨ words ≤ 2 * s then
    none
  else
    some
      { cells := fun _ => 0, size := s, head := 0, tail := 0, headSeq := 0, tailSeq := 0 }

/-- The two condition variables. -/
inductive Condition where
  | readable
  | writeable
  deriving Repr, DecidableEq

/--
What a thread does.  `skipping max seq` is the inner loop of `queue_get`, which waits
for somebody else to consume the message `seq`.
-/
inductive Task where
  | outside
  | putting (message : List UInt8)
  | getting (max : Nat)
  | skipping (max seq : Nat)
  deriving Repr, DecidableEq

/-- How a section ends: asleep, going round the loop again, or returning from the call. -/
inductive Outcome where
  | wait (condition : Condition) (resume : Task)
  | again (resume : Task)
  | put (queue : Queue) (message : List UInt8)
  | got (queue : Queue) (message : List UInt8)

/-- The blocks of the buffer a section copies to or from: start and length. -/
abbrev Accesses := List (Nat × Nat)

/-- A section of `queue_put`. -/
def queuePut (q : Queue) (message : List UInt8) : Outcome × Accesses :=
  let size := message.length
  if sub q.size (sub q.tail q.head) < add size 16 then
    (.wait .writeable (.putting message), [])
  else
    let m : Message := { len := size, seq := q.tailSeq }
    let body := add q.tail 16
    let cells := copyIn q.size q.cells q.tail m.bytes
    let cells := copyIn q.size cells body message
    (.put
      { q with
        cells := cells
        tailSeq := add q.tailSeq 1
        tail := add q.tail (add 16 size) }
      message,
      [(q.tail, 16), (body, size)])

/-- The header at a place of the buffer. -/
def headerAt (q : Queue) (position : Nat) : Message :=
  Message.ofBytes (read (view q.size q.cells) position 16)

/-- The bytes at a place of the buffer. -/
def bodyAt (q : Queue) (position length : Nat) : List UInt8 :=
  read (view q.size q.cells) position length

/-- The end of `queue_get`: step over the message at the front and wrap the indices. -/
def consume (q : Queue) (len : Nat) : Queue :=
  let head := add q.head (add len 16)
  let headSeq := add q.headSeq 1
  if head ≥ q.size then
    { q with head := sub head q.size, tail := sub q.tail q.size, headSeq := headSeq }
  else
    { q with head := head, headSeq := headSeq }

/-- A section of `queue_get` that starts at the top of its loop. -/
def queueGet (q : Queue) (max : Nat) : Outcome × Accesses :=
  if sub q.tail q.head = 0 then
    (.wait .readable (.getting max), [])
  else
    let m := headerAt q q.head
    if m.len > max then
      if q.headSeq = m.seq then
        (.wait .writeable (.skipping max m.seq), [(q.head, 16)])
      else
        (.again (.getting max), [(q.head, 16)])
    else
      let start := add q.head 16
      (.got (consume q m.len) (bodyAt q start m.len), [(q.head, 16), (start, m.len)])

/-- The next section of a call. -/
def nextSection (q : Queue) : Task → Option (Outcome × Accesses)
  | .outside => none
  | .putting message => some (queuePut q message)
  | .getting max => some (queueGet q max)
  | .skipping max seq =>
      if q.headSeq = seq then
        some (.wait .writeable (.skipping max seq), [])
      else
        some (queueGet q max)

/-! ## Threads -/

/-- A thread and the condition it sleeps on, if any. -/
structure Thread where
  task : Task
  asleep : Option Condition
  deriving Repr, DecidableEq

/--
The queue with its threads.  `sent` and `received` are the messages of the completed
`queue_put` and `queue_get` calls in the order of their sections, and `accesses` all
blocks of the buffer that were copied to or from.
-/
structure System (Id : Type) where
  queue : Queue
  threads : Id → Thread
  sent : List (List UInt8)
  received : List (List UInt8)
  accesses : Accesses

variable {Id : Type} [DecidableEq Id]

/-- All threads outside the queue. -/
def System.initial (queue : Queue) : System Id where
  queue := queue
  threads := fun _ => { task := .outside, asleep := none }
  sent := []
  received := []
  accesses := []

/-- The arguments a call can be made with. -/
def Callable : Task → Prop
  | .putting message => message.length + 16 < words
  | .getting max => max < words
  | _ => False

/-- `pthread_cond_signal` wakes one sleeper if there is one. -/
def Signals (threads : Id → Thread) (condition : Condition) : Option Id → Prop
  | some woken => (threads woken).asleep = some condition
  | none => ∀ thread, (threads thread).asleep ≠ some condition

/-- The threads after a wake-up. -/
def wake (threads : Id → Thread) : Option Id → Id → Thread
  | none => threads
  | some woken => Function.update threads woken { threads woken with asleep := none }

/-- What happens next. -/
inductive Label (Id : Type) where
  | call (thread : Id) (task : Task)
  | enter (thread : Id) (woken : Option Id)
  | spurious (thread : Id)

/-- One step of the system. -/
inductive Step : System Id → Label Id → System Id → Prop where
  | call
      {system : System Id}
      {thread : Id}
      {task : Task}
      (idle : system.threads thread = { task := .outside, asleep := none })
      (callable : Callable task) :
      Step system (.call thread task)
        { system with
          threads :=
            Function.update system.threads thread { task := task, asleep := none } }
  | wait
      {system : System Id}
      {thread : Id}
      {task resume : Task}
      {condition : Condition}
      {accesses : Accesses}
      (running : system.threads thread = { task := task, asleep := none })
      (result : nextSection system.queue task = some (.wait condition resume, accesses)) :
      Step system (.enter thread none)
        { system with
          threads :=
            Function.update system.threads thread { task := resume, asleep := some condition }
          accesses := system.accesses ++ accesses }
  | again
      {system : System Id}
      {thread : Id}
      {task resume : Task}
      {accesses : Accesses}
      (running : system.threads thread = { task := task, asleep := none })
      (result : nextSection system.queue task = some (.again resume, accesses)) :
      Step system (.enter thread none)
        { system with
          threads := Function.update system.threads thread { task := resume, asleep := none }
          accesses := system.accesses ++ accesses }
  | put
      {system : System Id}
      {thread : Id}
      {task : Task}
      {queue : Queue}
      {message : List UInt8}
      {accesses : Accesses}
      {woken : Option Id}
      (running : system.threads thread = { task := task, asleep := none })
      (result : nextSection system.queue task = some (.put queue message, accesses))
      (signals : Signals system.threads .readable woken) :
      Step system (.enter thread woken)
        { system with
          queue := queue
          threads :=
            Function.update (wake system.threads woken) thread
              { task := .outside, asleep := none }
          sent := system.sent ++ [message]
          accesses := system.accesses ++ accesses }
  | got
      {system : System Id}
      {thread : Id}
      {task : Task}
      {queue : Queue}
      {message : List UInt8}
      {accesses : Accesses}
      {woken : Option Id}
      (running : system.threads thread = { task := task, asleep := none })
      (result : nextSection system.queue task = some (.got queue message, accesses))
      (signals : Signals system.threads .writeable woken) :
      Step system (.enter thread woken)
        { system with
          queue := queue
          threads :=
            Function.update (wake system.threads woken) thread
              { task := .outside, asleep := none }
          received := system.received ++ [message]
          accesses := system.accesses ++ accesses }
  | spurious
      {system : System Id}
      {thread : Id} :
      Step system (.spurious thread)
        { system with threads := wake system.threads (some thread) }

end Sysprog.MessageQueue
