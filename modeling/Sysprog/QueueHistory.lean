import Sysprog.QueueModel

namespace Sysprog.MessageQueue

open ByteMemory Execution MachineWord MirroredBuffer

/-!
# The queue delivers its messages in order

Between `head` and `tail` the buffer holds exactly the encodings of the unread
messages, one behind the other, with consecutive sequence numbers.  A completed
`queue_put` adds a message at the end, a completed `queue_get` takes the first one.
-/

/-- The number of bytes a message takes in the buffer. -/
def frameSize (message : List UInt8) : Nat :=
  16 + message.length

/-- The number of bytes all messages take. -/
def extent (messages : List (List UInt8)) : Nat :=
  (messages.map frameSize).sum

/-- The bytes of consecutive messages whose first one has the number `seq`. -/
def frames : Nat → List (List UInt8) → List UInt8
  | _, [] => []
  | seq, message :: rest =>
      Message.bytes { len := message.length, seq := seq } ++ message ++
        frames (add seq 1) rest

@[simp] theorem length_bytes (m : Message) : m.bytes.length = 16 := by
  simp [Message.bytes]

/-- A header with words in it survives being stored. -/
theorem ofBytes_bytes
    {m : Message}
    (lenFits : m.len < words)
    (seqFits : m.seq < words) :
    Message.ofBytes m.bytes = m := by
  have lenBytes : m.bytes.take 8 = encode 8 m.len := by
    rw [Message.bytes, List.take_left' (length_encode 8 m.len)]
  have seqBytes : m.bytes.drop 8 = encode 8 m.seq := by
    rw [Message.bytes, List.drop_left' (length_encode 8 m.len)]
  rw [Message.ofBytes, lenBytes, seqBytes, decode_encode_of_lt lenFits,
    decode_encode_of_lt seqFits]

@[simp] theorem extent_nil : extent [] = 0 :=
  rfl

@[simp] theorem extent_cons (message : List UInt8) (rest : List (List UInt8)) :
    extent (message :: rest) = 16 + message.length + extent rest := by
  simp [extent, frameSize]

@[simp] theorem extent_append (first second : List (List UInt8)) :
    extent (first ++ second) = extent first + extent second := by
  simp [extent]

@[simp] theorem length_frames (seq : Nat) (messages : List (List UInt8)) :
    (frames seq messages).length = extent messages := by
  induction messages generalizing seq with
  | nil =>
      rfl
  | cons message rest inductionHypothesis =>
      simp [frames, inductionHypothesis, Nat.add_assoc]

/-- The numbers of later messages continue those of the earlier ones. -/
theorem frames_append
    {seq : Nat}
    (word : seq < words)
    (earlier later : List (List UInt8)) :
    frames seq (earlier ++ later) =
      frames seq earlier ++ frames ((seq + earlier.length) % words) later := by
  induction earlier generalizing seq with
  | nil =>
      simp [frames, Nat.mod_eq_of_lt word]
  | cons first rest inductionHypothesis =>
      have number :
          (add seq 1 + rest.length) % words = (seq + (first :: rest).length) % words := by
        rw [add, Nat.mod_add_mod, List.length_cons]
        congr 1
        omega
      rw [List.cons_append, frames, inductionHypothesis add_lt, number, frames]
      simp only [List.append_assoc]

/-- A message with this number is stored at this place. -/
structure Carries (q : Queue) (position seq : Nat) (message : List UInt8) : Prop where
  header : headerAt q position = { len := message.length, seq := seq }
  body : bodyAt q (position + 16) message.length = message

/-- The queue stores exactly these unread messages. -/
structure Holds (q : Queue) (unread : List (List UInt8)) : Prop where
  addressable : 2 * q.size < words
  headInside : q.head < q.size
  tailEq : q.tail = q.head + extent unread
  fits : extent unread ≤ q.size
  stored : read (view q.size q.cells) q.head (extent unread) = frames q.headSeq unread
  headSeqWord : q.headSeq < words
  tailSeqEq : q.tailSeq = (q.headSeq + unread.length) % words

namespace Holds

variable {q : Queue} {unread rest : List (List UInt8)} {message : List UInt8}

/-- The space check of `queue_put` in plain arithmetic. -/
theorem free_space (holds : Holds q unread) :
    sub q.size (sub q.tail q.head) = q.size - extent unread := by
  obtain ⟨addressable, headInside, tailEq, fits, _, _, _⟩ := holds
  have used : sub q.tail q.head = extent unread := by
    rw [sub_of_le (by omega) (by omega)]
    omega
  rw [used, sub_of_le (by omega) fits]

/-- Writing a message that fits behind the unread ones. -/
theorem append
    (holds : Holds q unread)
    (enough : extent unread + frameSize message ≤ q.size) :
    Holds
      { q with
        cells :=
          copyIn q.size
            (copyIn q.size q.cells q.tail
              (Message.bytes { len := message.length, seq := q.tailSeq }))
            (q.tail + 16) message
        tailSeq := add q.tailSeq 1
        tail := q.tail + (16 + message.length) }
      (unread ++ [message]) := by
  obtain ⟨addressable, headInside, tailEq, fits, stored, headSeqWord, tailSeqEq⟩ := holds
  rw [frameSize] at enough
  refine ⟨addressable, headInside, ?_, ?_, ?_, headSeqWord, ?_⟩
  · simp only [extent_append, extent_cons, extent_nil]
    omega
  · simp only [extent_append, extent_cons, extent_nil]
    omega
  · simp only [extent_append, extent_cons, extent_nil, Nat.add_zero]
    -- The old messages lie before both copies, the header before the body.
    rw [read_add, read_add, ← tailEq, frames_append headSeqWord, ← tailSeqEq]
    simp only [frames, List.append_nil]
    congr 1
    · rw [read_copyIn_before (by omega) (by omega),
        read_copyIn_before (by omega) (by simp only [length_bytes]; omega), stored]
    · congr 1
      · rw [read_copyIn_before (Nat.le_refl _) (by omega)]
        have headerBack := @read_copyIn q.size q.tail q.cells
          (Message.bytes { len := message.length, seq := q.tailSeq })
          (by simp only [length_bytes]; omega)
        rwa [length_bytes] at headerBack
      · exact read_copyIn (by omega)
  · simp only [tailSeqEq, add, List.length_append, List.length_cons, List.length_nil]
    rw [Nat.mod_add_mod, Nat.add_assoc]

/-- `queue_put` blocks, or appends its message behind the unread ones. -/
theorem put
    (holds : Holds q unread)
    (short : message.length + 16 < words) :
    (q.size < extent unread + frameSize message ∧
        queuePut q message = (.wait .writeable (.putting message), [])) ∨
      ∃ result,
        extent unread + frameSize message ≤ q.size ∧
          queuePut q message =
            (.put result message, [(q.tail, 16), (q.tail + 16, message.length)]) ∧
          result.size = q.size ∧
          Holds result (unread ++ [message]) := by
  have room := holds.free_space
  have needed : add message.length 16 = message.length + 16 := add_of_lt short
  have size : frameSize message = 16 + message.length := rfl
  by_cases blocked : q.size - extent unread < message.length + 16
  · left
    refine ⟨by omega, ?_⟩
    simp only [queuePut, room, needed, if_pos blocked]
  · right
    have fits := holds.fits
    have headInside := holds.headInside
    have tailEq := holds.tailEq
    have addressable := holds.addressable
    have bodyStart : add q.tail 16 = q.tail + 16 := add_of_lt (by omega)
    have newTail : add q.tail (add 16 message.length) = q.tail + (16 + message.length) := by
      rw [add_of_lt (show 16 + message.length < words by omega), add_of_lt (by omega)]
    have enough : extent unread + frameSize message ≤ q.size := by omega
    refine ⟨_, enough, ?_, ?_, holds.append enough⟩
    · simp only [queuePut, room, needed, if_neg blocked, bodyStart, newTail]
    · rfl

/-- Every unread message is stored behind the ones before it. -/
theorem carries
    {earlier later : List (List UInt8)}
    (holds : Holds q (earlier ++ message :: later)) :
    Carries q (q.head + extent earlier) ((q.headSeq + earlier.length) % words) message := by
  obtain ⟨addressable, headInside, tailEq, fits, stored, headSeqWord, tailSeqEq⟩ := holds
  rw [extent_append, extent_cons] at stored fits
  rw [frames_append headSeqWord, read_add, read_add, read_add, frames] at stored
  have behind := (List.append_inj stored (by simp)).2
  have frame := (List.append_inj behind (by simp)).1
  obtain ⟨headerBytes, bodyBytes⟩ := List.append_inj frame (by simp)
  refine ⟨?_, bodyBytes⟩
  rw [headerAt, headerBytes]
  exact ofBytes_bytes (show message.length < words by omega) (Nat.mod_lt _ (by decide))

/-- The first unread message is stored at `head` with the number `head_seq`. -/
theorem carries_first
    (holds : Holds q (message :: rest)) :
    Carries q q.head q.headSeq message := by
  have first := @carries q message [] rest holds
  simpa [Nat.mod_eq_of_lt holds.headSeqWord] using first

/-- Stepping over the first unread message. -/
theorem consumed
    (holds : Holds q (message :: rest)) :
    (consume q message.length).size = q.size ∧ Holds (consume q message.length) rest := by
  obtain ⟨addressable, headInside, tailEq, fits, stored, headSeqWord, tailSeqEq⟩ := holds
  rw [extent_cons] at tailEq fits
  have newHead : add q.head (add message.length 16) = q.head + (16 + message.length) := by
    rw [add_of_lt (show message.length + 16 < words by omega), add_of_lt (by omega)]
    omega
  have restStored :
      read (view q.size q.cells) (q.head + (16 + message.length)) (extent rest) =
        frames (add q.headSeq 1) rest := by
    rw [extent_cons, read_add, frames] at stored
    exact (List.append_inj stored (by simp)).2
  have restSeq : q.tailSeq = (add q.headSeq 1 + rest.length) % words := by
    rw [tailSeqEq, add, Nat.mod_add_mod, List.length_cons]
    congr 1
    omega
  by_cases wrapped : q.head + (16 + message.length) ≥ q.size
  · simp only [consume, newHead, if_pos wrapped]
    have headBack :
        sub (q.head + (16 + message.length)) q.size = q.head + (16 + message.length) - q.size :=
      sub_of_le (by omega) wrapped
    have tailBack : sub q.tail q.size = q.tail - q.size :=
      sub_of_le (by omega) (by omega)
    refine ⟨trivial, addressable, ?_, ?_, show extent rest ≤ q.size by omega, ?_, add_lt,
      restSeq⟩
    · simp only [headBack]
      omega
    · simp only [headBack, tailBack]
      omega
    · simp only [headBack]
      rw [← restStored, ← read_shift, Nat.sub_add_cancel wrapped]
  · simp only [consume, newHead, if_neg wrapped]
    exact ⟨trivial, addressable, Nat.lt_of_not_le wrapped, by simp only; omega,
      show extent rest ≤ q.size by omega, restStored, add_lt, restSeq⟩

/-- `queue_get` blocks on an empty queue or a long message, or takes the first message. -/
theorem get
    (holds : Holds q unread)
    (max : Nat) :
    (unread = [] ∧ queueGet q max = (.wait .readable (.getting max), [])) ∨
      ∃ message rest,
        unread = message :: rest ∧
          ((max < message.length ∧
              queueGet q max =
                (.wait .writeable (.skipping max q.headSeq), [(q.head, 16)])) ∨
            (message.length ≤ max ∧
              queueGet q max =
                (.got (consume q message.length) message,
                  [(q.head, 16), (q.head + 16, message.length)]))) := by
  have addressable := holds.addressable
  have headInside := holds.headInside
  have tailEq := holds.tailEq
  have fits := holds.fits
  have used : sub q.tail q.head = extent unread := by
    rw [sub_of_le (by omega) (by omega)]
    omega
  cases unread with
  | nil =>
      left
      refine ⟨rfl, ?_⟩
      simp only [queueGet, used, extent_nil, if_pos]
  | cons message rest =>
      right
      refine ⟨message, rest, rfl, ?_⟩
      have occupied : ¬ extent (message :: rest) = 0 := by
        rw [extent_cons]
        omega
      have bodyStart : add q.head 16 = q.head + 16 := by
        rw [extent_cons] at fits
        exact add_of_lt (by omega)
      simp only [queueGet, used, if_neg occupied, holds.carries_first.header, bodyStart,
        holds.carries_first.body]
      by_cases long : message.length > max
      · left
        exact ⟨long, by simp only [if_pos long, if_pos]⟩
      · right
        exact ⟨by omega, by simp only [if_neg long]⟩

end Holds

/-! ## Runs -/

variable {Id : Type}

/-- The blocks lie below `2 * size`. -/
def Inside (size : Nat) (accesses : Accesses) : Prop :=
  ∀ access ∈ accesses, access.1 + access.2 ≤ 2 * size

/-- What a section does to a queue with given unread messages. -/
def SectionOk (q : Queue) (unread : List (List UInt8)) (result : Outcome × Accesses) : Prop :=
  Inside q.size result.2 ∧
    match result.1 with
    | .wait _ resume | .again resume =>
        ∀ message, resume = .putting message → message.length + 16 < words
    | .put queue message => queue.size = q.size ∧ Holds queue (unread ++ [message])
    | .got queue message =>
        ∃ rest, unread = message :: rest ∧ queue.size = q.size ∧ Holds queue rest

/-- Every section of `queue_put` is an append or leaves the queue alone. -/
theorem queuePut_ok
    {q : Queue}
    {unread : List (List UInt8)}
    {message : List UInt8}
    (holds : Holds q unread)
    (short : message.length + 16 < words) :
    SectionOk q unread (queuePut q message) := by
  have headInside := holds.headInside
  have tailEq := holds.tailEq
  rcases holds.put short with ⟨_, blocked⟩ | ⟨result, enough, written, sameSize, kept⟩
  · rw [blocked]
    refine ⟨by simp [Inside], ?_⟩
    intro other same
    obtain rfl : message = other := by simpa using same
    exact short
  · rw [written]
    refine ⟨?_, sameSize, kept⟩
    rw [frameSize] at enough
    simp only [Inside, List.mem_cons, List.not_mem_nil, or_false, forall_eq_or_imp, forall_eq]
    omega

/-- Every section of `queue_get` takes the first message or leaves the queue alone. -/
theorem queueGet_ok
    {q : Queue}
    {unread : List (List UInt8)}
    (holds : Holds q unread)
    (max : Nat) :
    SectionOk q unread (queueGet q max) := by
  have headInside := holds.headInside
  have fits := holds.fits
  rcases holds.get max with
    ⟨_, blocked⟩ | ⟨message, rest, rfl, ⟨_, blocked⟩ | ⟨_, taken⟩⟩
  · rw [blocked]
    exact ⟨by simp [Inside], by simp⟩
  · rw [blocked]
    rw [extent_cons] at fits
    refine ⟨?_, by simp⟩
    simp only [Inside, List.mem_cons, List.not_mem_nil, or_false, forall_eq]
    omega
  · rw [taken]
    rw [extent_cons] at fits
    obtain ⟨sameSize, kept⟩ := holds.consumed
    refine ⟨?_, rest, rfl, sameSize, kept⟩
    simp only [Inside, List.mem_cons, List.not_mem_nil, or_false, forall_eq_or_imp, forall_eq]
    omega

/-- Every section of every call. -/
theorem nextSection_ok
    {q : Queue}
    {unread : List (List UInt8)}
    {task : Task}
    {result : Outcome × Accesses}
    (holds : Holds q unread)
    (short : ∀ message, task = .putting message → message.length + 16 < words)
    (taken : nextSection q task = some result) :
    SectionOk q unread result := by
  cases task with
  | outside =>
      simp [nextSection] at taken
  | putting message =>
      obtain rfl : queuePut q message = result := by simpa [nextSection] using taken
      exact queuePut_ok holds (short message rfl)
  | getting max =>
      obtain rfl : queueGet q max = result := by simpa [nextSection] using taken
      exact queueGet_ok holds max
  | skipping max seq =>
      by_cases unchanged : q.headSeq = seq
      · simp only [nextSection, if_pos unchanged, Option.some.injEq] at taken
        subst taken
        exact ⟨by simp [Inside], by simp⟩
      · simp only [nextSection, if_neg unchanged, Option.some.injEq] at taken
        subst taken
        exact queueGet_ok holds max

/-- The invariant of the system. -/
structure Delivers (size : Nat) (system : System Id) (unread : List (List UInt8)) : Prop where
  holds : Holds system.queue unread
  sameSize : system.queue.size = size
  order : system.sent = system.received ++ unread
  inside : Inside size system.accesses
  short :
    ∀ thread message,
      (system.threads thread).task = .putting message →
      message.length + 16 < words

/-- A fresh queue holds no message. -/
theorem delivers_initial
    {pageSize size : Nat}
    {queue : Queue}
    (fresh : queueInit pageSize size = some queue) :
    Delivers size (System.initial queue : System Id) [] := by
  unfold queueInit at fresh
  split at fresh
  · simp at fresh
  · split at fresh
    · simp at fresh
    · rename_i mapped
      obtain rfl := Option.some.inj fresh
      rw [not_or, Nat.not_le] at mapped
      refine ⟨⟨mapped.2, Nat.pos_of_ne_zero mapped.1, rfl, Nat.zero_le _, rfl, Nat.zero_lt_succ _, rfl⟩,
        rfl, rfl, by simp [Inside, System.initial], ?_⟩
      intro thread message putting
      simp [System.initial] at putting

variable [DecidableEq Id]

/-- A wake-up changes no task. -/
@[simp] theorem task_wake
    (threads : Id → Thread)
    (woken : Option Id)
    (thread : Id) :
    (wake threads woken thread).task = (threads thread).task := by
  cases woken with
  | none =>
      rfl
  | some other =>
      by_cases same : thread = other
      · subst same
        simp [wake]
      · simp [wake, Function.update_of_ne same]

/-- The messages of all threads stay short when one thread changes its task. -/
private theorem short_update
    {threads : Id → Thread}
    {thread : Id}
    {state : Thread}
    (others :
      ∀ other message,
        (threads other).task = .putting message → message.length + 16 < words)
    (own : ∀ message, state.task = .putting message → message.length + 16 < words)
    (other : Id)
    (message : List UInt8)
    (putting : (Function.update threads thread state other).task = .putting message) :
    message.length + 16 < words := by
  by_cases same : other = thread
  · subst same
    rw [Function.update_self] at putting
    exact own message putting
  · rw [Function.update_of_ne same] at putting
    exact others other message putting

private theorem inside_append
    {size : Nat}
    {first second : Accesses}
    (insideFirst : Inside size first)
    (insideSecond : Inside size second) :
    Inside size (first ++ second) := by
  intro access member
  rcases List.mem_append.mp member with earlier | later
  · exact insideFirst access earlier
  · exact insideSecond access later

/-- Every step of the system keeps the messages in order. -/
theorem delivers_step
    {size : Nat}
    {before after : System Id}
    {label : Label Id}
    (delivers : ∃ unread, Delivers size before unread)
    (step : Step before label after) :
    ∃ unread, Delivers size after unread := by
  obtain ⟨unread, holds, sameSize, order, inside, short⟩ := delivers
  cases step with
  | call idle callable =>
      refine ⟨unread, holds, sameSize, order, inside, short_update short ?_⟩
      rintro message rfl
      exact callable
  | wait running result =>
      obtain ⟨insideNew, resumed⟩ :=
        nextSection_ok holds (fun message putting => short _ message (by rw [running, putting]))
          result
      rw [sameSize] at insideNew
      exact ⟨unread, holds, sameSize, order, inside_append inside insideNew,
        short_update short resumed⟩
  | again running result =>
      obtain ⟨insideNew, resumed⟩ :=
        nextSection_ok holds (fun message putting => short _ message (by rw [running, putting]))
          result
      rw [sameSize] at insideNew
      exact ⟨unread, holds, sameSize, order, inside_append inside insideNew,
        short_update short resumed⟩
  | put running result signals =>
      obtain ⟨insideNew, newSize, kept⟩ :=
        nextSection_ok holds (fun message putting => short _ message (by rw [running, putting]))
          result
      rw [sameSize] at insideNew newSize
      refine ⟨_, kept, newSize, ?_, inside_append inside insideNew, short_update ?_ (by simp)⟩
      · rw [order, List.append_assoc]
      · simpa using short
  | got running result signals =>
      obtain ⟨insideNew, rest, rfl, newSize, kept⟩ :=
        nextSection_ok holds (fun message putting => short _ message (by rw [running, putting]))
          result
      rw [sameSize] at insideNew newSize
      refine ⟨rest, kept, newSize, ?_, inside_append inside insideNew, short_update ?_ (by simp)⟩
      · rw [order]
        simp
      · simpa using short
  | spurious =>
      refine ⟨unread, holds, sameSize, order, inside, ?_⟩
      intro other message putting
      exact short other message (by simpa using putting)

/-- The threads keep the queue in every run. -/
theorem delivers_reachable
    {pageSize size : Nat}
    {queue : Queue}
    (fresh : queueInit pageSize size = some queue)
    {system : System Id}
    (reachable : Reachable Step (System.initial queue) system) :
    ∃ unread, Delivers size system unread :=
  reachable.invariant ⟨[], delivers_initial fresh⟩ delivers_step

/--
In every reachable state the received messages are the first of the sent ones.  The
unread messages lie behind `head` with consecutive sequence numbers, the indices stay
within one size of each other, and no access left the two mappings.
-/
theorem queue_delivers_in_order
    {pageSize size : Nat}
    {queue : Queue}
    (fresh : queueInit pageSize size = some queue)
    {system : System Id}
    (reachable : Reachable Step (System.initial queue) system) :
    ∃ unread,
      system.sent = system.received ++ unread ∧
        system.queue.size = size ∧
        system.queue.head < size ∧
        system.queue.head ≤ system.queue.tail ∧
        system.queue.tail ≤ system.queue.head + size ∧
        (∀ access ∈ system.accesses, ∀ index < access.2, access.1 + index < 2 * size) ∧
        system.queue.tailSeq = (system.queue.headSeq + unread.length) % words ∧
        ∀ earlier message later,
          unread = earlier ++ message :: later →
          Carries system.queue (system.queue.head + extent earlier)
            ((system.queue.headSeq + earlier.length) % words) message := by
  obtain ⟨unread, delivers⟩ := delivers_reachable fresh reachable
  obtain ⟨holds, rfl, order, inside, _⟩ := delivers
  refine ⟨unread, order, rfl, holds.headInside, ?_, ?_, ?_, holds.tailSeqEq, ?_⟩
  · rw [holds.tailEq]
    omega
  · rw [holds.tailEq]
    have fits := holds.fits
    omega
  · intro access member index within
    have bounded := inside access member
    omega
  · rintro earlier message later rfl
    exact holds.carries

/-- A queue of one page. -/
def onePage : Queue :=
  { cells := fun _ => 0, size := 4096, head := 0, tail := 0, headSeq := 0, tailSeq := 0 }

/-- One thread puts a message of three bytes and another gets it. -/
theorem onePage_roundTrip :
    ∃ system : System Bool,
      Reachable Step (System.initial onePage) system ∧
        system.sent = [[1, 2, 3]] ∧ system.received = [[1, 2, 3]] := by
  have start : Reachable Step (System.initial onePage : System Bool) (System.initial onePage) :=
    .refl
  have called := start.next
    (Step.call rfl (show 19 < words by decide) : Step _ (.call true (.putting [1, 2, 3])) _)
  have sent := called.next
    (Step.put rfl rfl (by rintro (_ | _) asleep <;> cases asleep) :
      Step _ (.enter true none) _)
  have asked := sent.next
    (Step.call rfl (show 8 < words by decide) : Step _ (.call false (.getting 8)) _)
  have received := asked.next
    (Step.got rfl rfl (by rintro (_ | _) asleep <;> cases asleep) :
      Step _ (.enter false none) _)
  exact ⟨_, received, rfl, rfl⟩

/-- The guarantees after the round trip. -/
theorem onePage_delivers :
    ∃ system : System Bool,
      system.sent = [[1, 2, 3]] ∧
        system.received = [[1, 2, 3]] ∧
        ∃ unread,
          system.sent = system.received ++ unread ∧
            system.queue.size = 4096 ∧
            system.queue.head < 4096 ∧
            system.queue.head ≤ system.queue.tail ∧
            system.queue.tail ≤ system.queue.head + 4096 ∧
            (∀ access ∈ system.accesses, ∀ index < access.2, access.1 + index < 2 * 4096) ∧
            system.queue.tailSeq = (system.queue.headSeq + unread.length) % words ∧
            ∀ earlier message later,
              unread = earlier ++ message :: later →
              Carries system.queue (system.queue.head + extent earlier)
                ((system.queue.headSeq + earlier.length) % words) message := by
  obtain ⟨system, reachable, sent, received⟩ := onePage_roundTrip
  have fresh : queueInit 4096 4096 = some onePage := by
    rfl
  exact ⟨system, sent, received, queue_delivers_in_order fresh reachable⟩

end Sysprog.MessageQueue
