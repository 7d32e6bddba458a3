import Sysprog.LockedSections
import Sysprog.QueueHistory

namespace Sysprog.MessageQueue

open ByteMemory CountedLoop Execution LockedSections MachineWord MirroredBuffer

/-!
# The sections of the queue access by access

`queue_put` and `queue_get` load and store the fields of the queue one after the other and
copy a message byte by byte.  Other threads take steps in between: they start calls, wake up
without a signal, and wait for the mutex.  The mutex keeps them out of the queue, so a
section has the effects of a single step.
-/

/-- How a section ends, without the queue it leaves. -/
inductive Departure where
  | wait (condition : Condition) (resume : Task)
  | again (resume : Task)
  | put (message : List UInt8)
  | got (message : List UInt8)

/-- The end of a section and the blocks it copied to or from. -/
abbrev Leaving := Departure × Accesses

/-! ## The code of the sections -/

/-- `memcpy` into the buffer. -/
def storeBytes (start : Nat) : List UInt8 → Code Queue Unit
  | [] => pure ()
  | byte :: rest => do
      Code.store fun q =>
        { q with cells := Function.update q.cells (start % q.size) byte }
      storeBytes (start + 1) rest

/-- `memcpy` out of the buffer. -/
def loadBytes (start : Nat) : Nat → Code Queue (List UInt8)
  | 0 => pure []
  | length + 1 => do
      let byte ← Code.load fun q => view q.size q.cells start
      let rest ← loadBytes (start + 1) length
      pure (byte :: rest)

/-- A section of `queue_put`. -/
def queuePutCode (message : List UInt8) : Code Queue Leaving := do
  let size := message.length
  let capacity ← Code.load Queue.size
  let tail ← Code.load Queue.tail
  let head ← Code.load Queue.head
  if sub capacity (sub tail head) < add size 16 then
    pure (.wait .writeable (.putting message), [])
  else
    let seq ← Code.load Queue.tailSeq
    Code.store fun q => { q with tailSeq := add seq 1 }
    let m : Message := { len := size, seq := seq }
    let start ← Code.load Queue.tail
    storeBytes start m.bytes
    let tail ← Code.load Queue.tail
    let body := add tail 16
    storeBytes body message
    let last ← Code.load Queue.tail
    Code.store fun q => { q with tail := add last (add 16 size) }
    pure (.put message, [(start, 16), (body, size)])

/-- The end of `queue_get`, which resets the indices to the first mapping. -/
def wrapIndices : Code Queue Unit := do
  let head ← Code.load Queue.head
  let size ← Code.load Queue.size
  if head ≥ size then
    let moved ← Code.load Queue.head
    let size ← Code.load Queue.size
    Code.store fun q => { q with head := sub moved size }
    let tail ← Code.load Queue.tail
    let size ← Code.load Queue.size
    Code.store fun q => { q with tail := sub tail size }
  else
    pure ()

/-- Copy the header of the message at the front. -/
def loadHeader : Code Queue (Nat × Message) := do
  let front ← Code.load Queue.head
  let bytes ← loadBytes front 16
  pure (front, Message.ofBytes bytes)

/-- A section of `queue_get` that starts at the top of its loop. -/
def queueGetCode (max : Nat) : Code Queue Leaving := do
  let tail ← Code.load Queue.tail
  let head ← Code.load Queue.head
  if sub tail head = 0 then
    pure (.wait .readable (.getting max), [])
  else
    let (front, m) ← loadHeader
    if m.len > max then
      let headSeq ← Code.load Queue.headSeq
      if headSeq = m.seq then
        pure (.wait .writeable (.skipping max m.seq), [(front, 16)])
      else
        pure (.again (.getting max), [(front, 16)])
    else
      let head ← Code.load Queue.head
      let start := add head 16
      let body ← loadBytes start m.len
      let head ← Code.load Queue.head
      Code.store fun q => { q with head := add head (add m.len 16) }
      let headSeq ← Code.load Queue.headSeq
      Code.store fun q => { q with headSeq := add headSeq 1 }
      wrapIndices
      pure (.got body, [(front, 16), (start, m.len)])

/-- The code a thread runs once it has the mutex. -/
def sectionCode : Task → Option (Code Queue Leaving)
  | .outside => none
  | .putting message => some (queuePutCode message)
  | .getting max => some (queueGetCode max)
  | .skipping max seq =>
      some do
        let headSeq ← Code.load Queue.headSeq
        if headSeq = seq then
          pure (.wait .writeable (.skipping max seq), [])
        else
          queueGetCode max

/-! ## The threads -/

/-- What the mutex does not protect: the threads and the record of the run. -/
structure Surroundings (Id : Type) where
  threads : Id → Thread
  sent : List (List UInt8)
  received : List (List UInt8)
  accesses : Accesses

variable {Id : Type} [DecidableEq Id]

/-- Waiting gives the mutex back; a completed call signals first and then unlocks. -/
def ending (leaving : Leaving) : Ending :=
  match leaving.1 with
  | .wait _ _ => .releases
  | .again _ => .stays
  | .put _ | .got _ => .unlocks

/-- What the end of a section does to the threads. -/
inductive Departs (world : Surroundings Id) (thread : Id) : Leaving → Surroundings Id → Prop where
  | wait
      {condition : Condition}
      {resume : Task}
      {accesses : Accesses} :
      Departs world thread (.wait condition resume, accesses)
        { world with
          threads :=
            Function.update world.threads thread { task := resume, asleep := some condition }
          accesses := world.accesses ++ accesses }
  | again
      {resume : Task}
      {accesses : Accesses} :
      Departs world thread (.again resume, accesses)
        { world with
          threads := Function.update world.threads thread { task := resume, asleep := none }
          accesses := world.accesses ++ accesses }
  | put
      {message : List UInt8}
      {accesses : Accesses}
      {woken : Option Id}
      (signals : Signals world.threads .readable woken) :
      Departs world thread (.put message, accesses)
        { world with
          threads :=
            Function.update (wake world.threads woken) thread { task := .outside, asleep := none }
          sent := world.sent ++ [message]
          accesses := world.accesses ++ accesses }
  | got
      {message : List UInt8}
      {accesses : Accesses}
      {woken : Option Id}
      (signals : Signals world.threads .writeable woken) :
      Departs world thread (.got message, accesses)
        { world with
          threads :=
            Function.update (wake world.threads woken) thread { task := .outside, asleep := none }
          received := world.received ++ [message]
          accesses := world.accesses ++ accesses }

/-- A thread starts a call or wakes up without a signal. -/
inductive Stirs (world : Surroundings Id) (thread : Id) : Surroundings Id → Prop where
  | call
      {task : Task}
      (idle : world.threads thread = { task := .outside, asleep := none })
      (callable : Callable task) :
      Stirs world thread
        { world with
          threads := Function.update world.threads thread { task := task, asleep := none } }
  | spurious :
      Stirs world thread { world with threads := wake world.threads (some thread) }

/-- The section a thread is about to run, if it is awake. -/
def due (thread : Thread) : Option (Code Queue Leaving) :=
  match thread.asleep with
  | none => sectionCode thread.task
  | some _ => none

/-- The queue as a component with one mutex. -/
def queueSections : Sections Id Unit (Surroundings Id) Queue Leaving where
  entry world thread := (due (world.threads thread)).map fun code => ((), code)
  ending := ending
  Commits := Departs
  Elsewhere := Stirs

/-- All threads outside of a queue. -/
def wholeQueue (queue : Queue) : Whole Unit (Surroundings Id) Queue where
  world :=
    { threads := fun _ => { task := .outside, asleep := none }
      sent := []
      received := []
      accesses := [] }
  data := fun _ => queue

/-! ## What the code does -/

section Code

variable {q : Queue} {start : Nat}

/-- A copy stores its first byte first. -/
theorem copyIn_cons
    {size : Nat}
    {cells : Memory}
    {byte : UInt8}
    {rest : List UInt8} :
    copyIn size cells start (byte :: rest) =
      copyIn size (Function.update cells (start % size) byte) (start + 1) rest := by
  simp only [copyIn, fill, forLoop, List.length_cons, List.range_succ_eq_map, List.foldl_cons,
    List.foldl_map, Nat.add_zero, List.getD_cons_zero, List.getD_cons_succ]
  congr 1
  funext cells index
  rw [Nat.succ_eq_add_one, Nat.add_right_comm, Nat.add_assoc start]

/-- Copying into the buffer byte by byte. -/
theorem run_storeBytes
    (bytes : List UInt8) :
    (storeBytes start bytes).run q =
      ({ q with cells := copyIn q.size q.cells start bytes }, ()) := by
  induction bytes generalizing start q with
  | nil =>
      rfl
  | cons byte rest inductionHypothesis =>
      rw [storeBytes, Code.run_store_bind, inductionHypothesis, copyIn_cons]

@[simp] theorem run_storeBytes_bind
    {Result : Type}
    (bytes : List UInt8)
    (later : Unit → Code Queue Result) :
    (storeBytes start bytes >>= later).run q =
      (later ()).run { q with cells := copyIn q.size q.cells start bytes } :=
  Code.run_bind_of_run (run_storeBytes bytes) later

/-- Copying out of the buffer byte by byte. -/
theorem run_loadBytes
    (length : Nat) :
    (loadBytes start length).run q = (q, read (view q.size q.cells) start length) := by
  induction length generalizing start with
  | zero =>
      rfl
  | succ length inductionHypothesis =>
      rw [Nat.add_comm length 1, read_add, Nat.add_comm 1 length, loadBytes,
        Code.run_load_bind, Code.run_bind_of_run inductionHypothesis]
      rfl

@[simp] theorem run_loadBytes_bind
    {Result : Type}
    (length : Nat)
    (later : List UInt8 → Code Queue Result) :
    (loadBytes start length >>= later).run q =
      (later (read (view q.size q.cells) start length)).run q :=
  Code.run_bind_of_run (run_loadBytes length) later

@[simp] theorem run_loadHeader_bind
    {Result : Type}
    (later : Nat × Message → Code Queue Result) :
    (loadHeader >>= later).run q = (later (q.head, headerAt q q.head)).run q := by
  apply Code.run_bind_of_run
  rw [loadHeader, Code.run_load_bind, run_loadBytes_bind]
  rfl

/-- The queue a section leaves and how it ends. -/
def settle (q : Queue) : Outcome × Accesses → Queue × Leaving
  | (.wait condition resume, accesses) => (q, .wait condition resume, accesses)
  | (.again resume, accesses) => (q, .again resume, accesses)
  | (.put queue message, accesses) => (queue, .put message, accesses)
  | (.got queue message, accesses) => (queue, .got message, accesses)

/-- The accesses of `queue_put`. -/
theorem run_queuePutCode
    (message : List UInt8) :
    (queuePutCode message).run q = settle q (queuePut q message) := by
  simp only [queuePutCode, queuePut, Code.run_load_bind, Code.run_ite]
  by_cases full : sub q.size (sub q.tail q.head) < add message.length 16
  · simp only [if_pos full, Code.run_pure, settle]
  · simp only [if_neg full, Code.run_store_bind, Code.run_load_bind, run_storeBytes_bind,
      Code.run_pure, settle]

/-- The end of `queue_get`. -/
theorem run_wrapIndices
    {len : Nat} :
    wrapIndices.run { q with head := add q.head (add len 16), headSeq := add q.headSeq 1 } =
      (consume q len, ()) := by
  simp only [wrapIndices, consume, Code.run_load_bind, Code.run_ite]
  by_cases beyond : add q.head (add len 16) ≥ q.size
  · simp only [if_pos beyond, Code.run_store_bind, Code.run_load_bind, Code.run_store]
  · simp only [if_neg beyond, Code.run_pure]

/-- The accesses of `queue_get`. -/
theorem run_queueGetCode
    (max : Nat) :
    (queueGetCode max).run q = settle q (queueGet q max) := by
  simp only [queueGetCode, queueGet, Code.run_load_bind, Code.run_ite, run_loadHeader_bind]
  by_cases empty : sub q.tail q.head = 0
  · simp only [if_pos empty, Code.run_pure, settle]
  · simp only [if_neg empty]
    by_cases long : (headerAt q q.head).len > max
    · simp only [if_pos long]
      by_cases front : q.headSeq = (headerAt q q.head).seq
      · simp only [if_pos front, Code.run_pure, settle]
      · simp only [if_neg front, Code.run_pure, settle]
    · simp only [if_neg long, run_loadBytes_bind, Code.run_store_bind, Code.run_load_bind,
        Code.run_bind_of_run run_wrapIndices, Code.run_pure, settle, bodyAt]

/-- The accesses of every section. -/
theorem run_sectionCode
    {task : Task}
    {code : Code Queue Leaving}
    (coded : sectionCode task = some code) :
    ∃ result, nextSection q task = some result ∧ code.run q = settle q result := by
  cases task with
  | outside =>
      simp [sectionCode] at coded
  | putting message =>
      obtain rfl : queuePutCode message = code := by simpa [sectionCode] using coded
      exact ⟨_, rfl, run_queuePutCode message⟩
  | getting max =>
      obtain rfl : queueGetCode max = code := by simpa [sectionCode] using coded
      exact ⟨_, rfl, run_queueGetCode max⟩
  | skipping max seq =>
      rw [sectionCode, Option.some.injEq] at coded
      subst coded
      simp only [nextSection, Code.run_load_bind, Code.run_ite]
      by_cases unchanged : q.headSeq = seq
      · exact ⟨_, if_pos unchanged, if_pos unchanged⟩
      · exact ⟨_, if_neg unchanged, (if_neg unchanged).trans (run_queueGetCode max)⟩

end Code

/-! ## The sections are single steps -/

/-- The queue and its threads. -/
def systemOf (whole : Whole Unit (Surroundings Id) Queue) : System Id where
  queue := whole.data ()
  threads := whole.world.threads
  sent := whole.world.sent
  received := whole.world.received
  accesses := whole.world.accesses

section Threads

variable {world later : Surroundings Id} {thread other : Id}

/-- A thread that is awake stays as it is when others go to sleep, leave or are woken. -/
theorem due_update
    {threads : Id → Thread}
    {state : Thread}
    {woken : Option Id}
    {code : Code Queue Leaving}
    (different : other ≠ thread)
    (awake : due (threads other) = some code) :
    due (Function.update (wake threads woken) thread state other) = some code := by
  rw [Function.update_of_ne different]
  cases woken with
  | none =>
      exact awake
  | some woken =>
      by_cases same : other = woken
      · subst same
        cases asleep : (threads other).asleep with
        | none =>
            simpa [wake, due, asleep] using awake
        | some condition =>
            simp [due, asleep] at awake
      · simpa [wake, Function.update_of_ne same] using awake

/-- A thread does not change the section another one is about to run. -/
theorem queueSections_framed : (queueSections : Sections Id _ _ _ _).Framed where
  commits := by
    intro world later thread other leaving _ departs different entry
    obtain ⟨code, awake, rfl⟩ := Option.map_eq_some_iff.mp entry
    apply Option.map_eq_some_iff.mpr
    refine ⟨code, ?_, rfl⟩
    cases departs with
    | wait => exact @due_update _ _ _ _ _ _ none _ different awake
    | again => exact @due_update _ _ _ _ _ _ none _ different awake
    | put _ => exact due_update different awake
    | got _ => exact due_update different awake
  elsewhere := by
    intro world later thread other _ stirs different entry
    obtain ⟨code, awake, rfl⟩ := Option.map_eq_some_iff.mp entry
    apply Option.map_eq_some_iff.mpr
    refine ⟨code, ?_, rfl⟩
    cases stirs with
    | call _ _ => exact @due_update _ _ _ _ _ _ none _ different awake
    | spurious => exact @due_update _ _ _ _ _ _ none _ different awake

end Threads

/-- The code of a section does what the section does. -/
theorem entry_runs
    {whole : Whole Unit (Surroundings Id) Queue}
    {thread : Id}
    {code : Code Queue Leaving}
    (entry : queueSections.entry whole.world thread = some ((), code)) :
    ∃ task result,
      whole.world.threads thread = { task := task, asleep := none } ∧
        nextSection (whole.data ()) task = some result ∧
        code.run (whole.data ()) = settle (whole.data ()) result := by
  obtain ⟨own, isDue, same⟩ := Option.map_eq_some_iff.mp entry
  obtain rfl : own = code := (Prod.mk.inj same).2
  cases state : whole.world.threads thread with
  | mk task asleep =>
      rw [state] at isDue
      cases asleep with
      | none =>
          obtain ⟨result, next, ran⟩ := run_sectionCode (q := whole.data ()) isDue
          exact ⟨task, result, rfl, next, ran⟩
      | some condition =>
          simp [due] at isDue

/-- A whole section is a step of the queue. -/
theorem step_of_whole
    {before after : Whole Unit (Surroundings Id) Queue}
    {thread : Id}
    (step : Whole.Step queueSections before thread after) :
    ∃ label, Step (systemOf before) label (systemOf after) := by
  cases step with
  | @runs lock code later entry commits =>
      obtain ⟨task, result, running, next, ran⟩ := entry_runs entry
      rw [ran] at commits ⊢
      obtain ⟨outcome, accesses⟩ := result
      cases outcome with
      | wait condition resume =>
          cases commits with
          | wait =>
              have slept := @Step.wait _ _ (systemOf before) thread _ _ _ _ running next
              refine ⟨.enter thread none, ?_⟩
              simpa [systemOf, settle] using slept
      | again resume =>
          cases commits with
          | again =>
              have again := @Step.again _ _ (systemOf before) thread _ _ _ running next
              refine ⟨.enter thread none, ?_⟩
              simpa [systemOf, settle] using again
      | put queue message =>
          cases commits with
          | @put _ _ woken signals =>
              have put := @Step.put _ _ (systemOf before) thread _ _ _ _ _ running next signals
              refine ⟨.enter thread woken, ?_⟩
              simpa [systemOf, settle] using put
      | got queue message =>
          cases commits with
          | @got _ _ woken signals =>
              have got := @Step.got _ _ (systemOf before) thread _ _ _ _ _ running next signals
              refine ⟨.enter thread woken, ?_⟩
              simpa [systemOf, settle] using got
  | elsewhere stirs =>
      cases stirs with
      | call idle callable => exact ⟨_, .call idle callable⟩
      | spurious => exact ⟨_, .spurious⟩

/-- A run section by section is a run of the queue. -/
theorem reachable_of_whole
    {queue : Queue}
    {whole : Whole Unit (Surroundings Id) Queue}
    (reachable : Reachable (Whole.Step queueSections) (wholeQueue queue) whole) :
    Reachable Step (System.initial queue) (systemOf whole) := by
  have initially : Reachable Step (System.initial queue : System Id) (systemOf (wholeQueue queue)) :=
    .refl
  apply reachable.invariant initially
  intro before thread after reached step
  obtain ⟨label, moved⟩ := step_of_whole step
  exact reached.next moved

/--
In every interleaving of the loads, the stores and the copied bytes of all calls, the
completed calls, the record and the threads are those of a run whose sections are single
steps.  So messages are received in the order in which they were sent, no access leaves the
two mappings, and while no thread is in the middle of a section the buffer holds exactly the
unread messages.
-/
theorem queue_delivers_access_by_access
    {pageSize size : Nat}
    {queue : Queue}
    {fine : Fine Id Unit (Surroundings Id) Queue Leaving}
    (fresh : queueInit pageSize size = some queue)
    (reachable :
      Reachable (Fine.Step queueSections) (Fine.initial (wholeQueue queue)) fine) :
    ∃ (system : System Id) (unread : List (List UInt8)),
      Reachable Step (System.initial queue) system ∧
        system.threads = fine.world.threads ∧
        system.sent = fine.world.sent ∧
        system.received = fine.world.received ∧
        fine.world.sent = fine.world.received ++ unread ∧
        (∀ access ∈ fine.world.accesses, ∀ index < access.2,
          access.1 + index < 2 * size) ∧
        ((∀ thread code, fine.holder () ≠ some (thread, .running code)) →
          system.queue = fine.data () ∧
            ∀ earlier message later,
              unread = earlier ++ message :: later →
              Carries (fine.data ()) ((fine.data ()).head + extent earlier)
                (((fine.data ()).headSeq + earlier.length) % words) message) := by
  obtain ⟨whole, reached, matched⟩ := exists_whole queueSections_framed reachable
  have steps := reachable_of_whole reached
  obtain ⟨unread, holds, _, order, inside, _⟩ := delivers_reachable fresh steps
  have world := matched.world
  refine ⟨systemOf whole, unread, steps, ?_, ?_, ?_, ?_, ?_, ?_⟩
  · exact congrArg Surroundings.threads world
  · exact congrArg Surroundings.sent world
  · exact congrArg Surroundings.received world
  · rw [← world]
    exact order
  · rw [← world]
    intro access member index within
    have bounded := inside access member
    omega
  · intro nobody
    have agrees := matched.data ()
    have same : whole.data () = fine.data () := by
      cases holder : fine.holder () with
      | none =>
          rw [holder] at agrees
          exact agrees
      | some held =>
          obtain ⟨thread, code | _⟩ := held
          · exact (nobody thread code holder).elim
          · rw [holder] at agrees
            exact agrees
    refine ⟨same, ?_⟩
    rw [← same]
    rintro earlier message later rfl
    exact holds.carries

/-- One thread puts a message of three bytes, access by access. -/
theorem onePage_put :
    ∃ fine : Fine Bool Unit (Surroundings Bool) Queue Leaving,
      Reachable (Fine.Step queueSections) (Fine.initial (wholeQueue onePage)) fine ∧
        fine.world.sent = [[1, 2, 3]] ∧ fine.holder () = none := by
  have start :
      Reachable (Fine.Step queueSections)
        (Fine.initial (wholeQueue onePage) : Fine Bool Unit (Surroundings Bool) Queue Leaving)
        (Fine.initial (wholeQueue onePage)) :=
    .refl
  have called := start.next
    (@Fine.Step.elsewhere _ _ _ _ _ _ queueSections _ true _ (by simp [Fine.Free, Fine.initial])
      (@Stirs.call _ _ _ true (.putting [1, 2, 3]) rfl (show 19 < words by decide)))
  have entered := called.next
    (@Fine.Step.enter _ _ _ _ _ _ queueSections _ true () (queuePutCode [1, 2, 3])
      (by simp [Fine.Free, Fine.initial]) rfl rfl)
  have ran := @Fine.reachable_done _ _ _ _ _ _ queueSections _ _ true () (queuePutCode [1, 2, 3])
    entered (by simp)
  have signalled := ran.next
    (@Fine.Step.commit _ _ _ _ _ _ queueSections _ true () (.put [1, 2, 3], [(0, 16), (16, 3)]) _
      (by rfl) rfl (@Departs.put _ _ _ _ _ _ none (by rintro (_ | _) asleep <;> cases asleep)))
  have unlocked := signalled.next (@Fine.Step.unlock _ _ _ _ _ _ queueSections _ true () (by rfl))
  exact ⟨_, unlocked, rfl, rfl⟩

/-- The guarantees once the message is in the queue. -/
theorem onePage_put_delivers :
    ∃ fine : Fine Bool Unit (Surroundings Bool) Queue Leaving,
      fine.world.sent = [[1, 2, 3]] ∧
        fine.holder () = none ∧
        ∃ unread,
          fine.world.sent = fine.world.received ++ unread ∧
            ∀ earlier message later,
              unread = earlier ++ message :: later →
              Carries (fine.data ()) ((fine.data ()).head + extent earlier)
                (((fine.data ()).headSeq + earlier.length) % words) message := by
  obtain ⟨fine, reachable, sent, unlocked⟩ := onePage_put
  have fresh : queueInit 4096 4096 = some onePage := by
    rfl
  obtain ⟨_, unread, _, _, _, _, order, _, outside⟩ :=
    queue_delivers_access_by_access fresh reachable
  exact ⟨fine, sent, unlocked, unread, order, (outside (by simp [unlocked])).2⟩

end Sysprog.MessageQueue
