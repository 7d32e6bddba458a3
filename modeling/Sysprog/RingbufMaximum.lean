import Mathlib.Data.List.Induction
import Sysprog.RingbufHistory

namespace Sysprog.ChunkRing

open ByteMemory Execution MachineWord

/-!
# Writing up to the reported maximum

A producer may write more than the minimum it asked for, up to what
`ringbuf_write_request_max` reports in `*maximum`.  The report is the whole free space:
it leaves out the element header in front of the data and the padding behind it.  This
module says which amounts the ring takes, and that runs which keep to them deliver
every chunk.
-/

/-! ## Requests with a chosen amount -/

/-- The request of the producer returned a pointer; `ringbuf` is the ring with its reservation. -/
def Granted (system : System) (minimum : Nat) (ringbuf : Ringbuf) (pointer : Nat) : Prop :=
  ∃ head,
    system.producer = .loadedHead minimum head ∧
      ringbufWriteRequestMax system.ringbuf head system.ringbuf.tail minimum =
        (ringbuf, some pointer)

/-- The producer holds a pointer behind which it will write at most `amount` bytes. -/
def System.reserve (system : System) (ringbuf : Ringbuf) (pointer amount : Nat) : System :=
  { system with ringbuf := ringbuf, producer := .reserved amount pointer }

/-- A step of a thread, or the end of a request whose caller chooses an amount. -/
inductive MaximumEvent where
  | thread (role : Role)
  | choose (minimum amount : Nat)
  deriving Repr, DecidableEq

/-- The steps of the two threads, where the producer may choose any amount up to `*maximum`. -/
inductive MaximumStep : System → MaximumEvent → System → Prop where
  | thread
      {before after : System}
      {role : Role}
      (step : Step before role after) :
      MaximumStep before (.thread role) after
  | choose
      {system : System}
      {ringbuf : Ringbuf}
      {minimum pointer amount : Nat}
      (granted : Granted system minimum ringbuf pointer)
      (reported : amount ≤ ringbuf.rsvd) :
      MaximumStep system (.choose minimum amount) (system.reserve ringbuf pointer amount)

/-- The header and the padded data fit where the request puts them, and so does the size field. -/
def Takes (ringbuf : Ringbuf) (minimum amount : Nat) : Prop :=
  amount + 7 < 2 ^ 32 ∧ RoomFor ringbuf minimum amount

/-- The amount chosen in an event is one the ring takes. -/
def Chooses (ringbuf : Ringbuf) : MaximumEvent → Prop
  | .thread _ => True
  | .choose minimum amount => Takes ringbuf minimum amount

/-- The steps in which every chosen amount is one the ring takes. -/
def TakenStep (before : System) (event : MaximumEvent) (after : System) : Prop :=
  MaximumStep before event after ∧ Chooses before.ringbuf event

/-- What a granted request tells of the ring. -/
theorem Granted.room
    {system : System}
    {shape : Shape}
    {minimum pointer : Nat}
    {ringbuf : Ringbuf}
    (delivers : Delivers system shape)
    (granted : Granted system minimum ringbuf pointer) :
    ∃ rsvd gapd element,
      ringbuf = system.ringbuf.reserve rsvd gapd ∧
        pointer = element + 8 ∧
        RoomFor system.ringbuf minimum minimum ∧
        ∀ amount, Room ringbuf amount element ↔ RoomFor system.ringbuf minimum amount := by
  obtain ⟨head, here, request⟩ := granted
  have producer := delivers.producer
  rw [here] at producer
  obtain ⟨rfl, word⟩ := producer
  obtain ⟨rsvd, gapd, result, requested, answer⟩ := writeRequest_room delivers.sound word
  rw [requested] at request
  obtain ⟨rfl, rfl⟩ := Prod.mk.inj request
  obtain ⟨_, enough, element, place, room⟩ := answer pointer rfl
  exact ⟨rsvd, gapd, element, rfl, place, enough, room⟩

/-- A step that keeps to what the ring takes keeps the chunks in order. -/
theorem taken_delivers
    {before after : System}
    {event : MaximumEvent}
    {shape : Shape}
    (delivers : Delivers before shape)
    (taken : TakenStep before event after) :
    ∃ result, Delivers after result := by
  obtain ⟨step, chooses⟩ := taken
  cases step with
  | thread step =>
      cases step with
      | producer step => exact producer_delivers delivers step
      | consumer step => exact consumer_delivers delivers step
  | @choose ringbuf minimum pointer amount granted reported =>
      obtain ⟨rsvd, gapd, element, rfl, rfl, _, room⟩ := granted.room delivers
      obtain ⟨sound, fits, _, consumer, order⟩ := delivers
      exact ⟨shape, { sound with }, by cases shape <;> exact fits,
        ⟨chooses.1, reported, element, rfl, (room amount).mpr chooses.2⟩, consumer, order⟩

/-- Every state of a run that keeps to what the ring takes keeps the chunks in order. -/
theorem delivers_taken
    {memory : Ringbuf}
    {exponent : Nat}
    {system : System}
    (small : exponent < 64)
    (reachable :
      Reachable TakenStep (System.initial (ringbufInit memory (2 ^ exponent))) system) :
    ∃ shape, Delivers system shape := by
  have initially :
      ∃ shape, Delivers (System.initial (ringbufInit memory (2 ^ exponent))) shape :=
    ⟨_, delivers_initial small⟩
  apply reachable.invariant initially
  rintro before label after ⟨shape, delivers⟩ taken
  exact taken_delivers delivers taken

/-! ## A consumer left alone -/

/-- The consumer moves and the producer does not. -/
def ConsumerAlone (before : System) (_ : Role) (after : System) : Prop :=
  ConsumerStep before after

/-- Left alone, the consumer reads on until it has read every chunk advanced so far. -/
def ReadsAll (system : System) : Prop :=
  ∃ final, Reachable ConsumerAlone system final ∧ final.consumed = system.advanced

/-- How many steps the consumer is away from a chunk it can read from. -/
def Consumer.distance : Consumer → Nat
  | .advancing => 8
  | .measuring _ => 7
  | .releasing _ => 6
  | .idle => 5
  | .loadedTail _ => 4
  | .testing _ => 3
  | .skipping _ => 2
  | .sizing _ => 1
  | .holding _ _ _ => 0

/-- A ring with unread chunks does not send the consumer back empty-handed. -/
theorem afterLoadingHead_distance
    {ringbuf : Ringbuf}
    {shape : Shape}
    (sound : Sound ringbuf)
    (fits : Fits ringbuf shape)
    (occupied : shape.unread ≠ []) :
    (afterLoadingHead ringbuf ringbuf.head ringbuf.tail).distance < 4 := by
  have tailInside := sound.tailInside
  have available : readableSpace ringbuf ringbuf.head ringbuf.tail > 0 := by
    rw [readableSpace_eq sound]
    cases shape with
    | straight chunks =>
        obtain ⟨ordered, segment⟩ := fits
        rw [if_neg (Nat.not_lt.mpr ordered)]
        cases chunks with
        | nil => exact (occupied rfl).elim
        | cons chunk rest =>
            have below := segment.first_le
            have atLeast := segment.1.inside.1
            omega
    | wrapped front back gap =>
        have ordered := fits.1
        rw [if_pos ordered]
        omega
  simp only [afterLoadingHead, if_pos available]
  split
  · exact Nat.lt_succ_self 3
  · exact Nat.lt_of_sub_eq_succ rfl

/-- While chunks are left, a consumer that holds none comes one step closer to the next. -/
theorem consumer_closer
    {system : System}
    {shape : Shape}
    (delivers : Delivers system shape)
    (pending : system.consumed ≠ system.advanced)
    (away : 0 < system.consumer.distance) :
    ∃ after,
      ConsumerStep system after ∧
        after.advanced = system.advanced ∧
        after.consumed = system.consumed ∧
        after.consumer.distance < system.consumer.distance := by
  cases here : system.consumer with
  | idle =>
      exact ⟨_, .loadTail here, rfl, rfl, Nat.lt_succ_self 4⟩
  | loadedTail tail =>
      have consumer := delivers.consumer
      have order := delivers.order
      rw [here] at consumer order
      obtain rfl : tail = system.ringbuf.tail := consumer
      have occupied : shape.unread ≠ [] := by
        intro empty
        simp only [empty, Consumer.counted] at order
        exact pending (by simpa using order.symm)
      exact ⟨_, .loadHead here, rfl, rfl,
        afterLoadingHead_distance delivers.sound delivers.fits occupied⟩
  | testing tail =>
      refine ⟨_, .testGap here, rfl, rfl, ?_⟩
      simp only
      split
      · exact Nat.lt_succ_self 2
      · exact Nat.lt_of_sub_eq_succ rfl
  | skipping tail =>
      exact ⟨_, .skipGap here, rfl, rfl, Nat.lt_succ_self 1⟩
  | sizing element =>
      exact ⟨_, .readSize here, rfl, rfl, Nat.lt_succ_self 0⟩
  | holding pointer toread bytes =>
      rw [here] at away
      exact absurd away (Nat.lt_irrefl 0)
  | advancing =>
      exact ⟨_, .reloadTail here, rfl, rfl, Nat.lt_succ_self 7⟩
  | measuring tail =>
      exact ⟨_, .rereadSize here, rfl, rfl, Nat.lt_succ_self 6⟩
  | releasing tail =>
      exact ⟨_, .storeTail here, rfl, rfl, Nat.lt_succ_self 5⟩

/-- A consumer that holds a chunk reads the rest of its bytes. -/
theorem holding_finishes
    {system : System}
    {shape : Shape}
    {pointer toread : Nat}
    {bytes : List UInt8}
    (delivers : Delivers system shape)
    (here : system.consumer = .holding pointer toread bytes) :
    ∃ after result,
      Reachable ConsumerAlone system after ∧
        Delivers after result ∧
        after.advanced = system.advanced ∧
        after.consumed.length = system.consumed.length + 1 := by
  have partly : bytes.length ≤ toread := by
    have consumer := delivers.consumer
    rw [here] at consumer
    obtain ⟨_, chunk, _, rfl, partly⟩ := consumer
    exact partly.length_le
  induction missing : toread - bytes.length generalizing system shape bytes with
  | zero =>
      have step : ConsumerAlone system .consumer _ := ConsumerStep.finish here (by omega)
      obtain ⟨result, kept⟩ := consumer_delivers delivers step
      exact ⟨_, result, Reachable.refl.next step, kept, rfl, by simp⟩
  | succ count inductionHypothesis =>
      have step : ConsumerAlone system .consumer _ := ConsumerStep.readByte here (by omega)
      obtain ⟨result, kept⟩ := consumer_delivers delivers step
      obtain ⟨after, final, run, later⟩ :=
        inductionHypothesis kept rfl (by simp; omega) (by simp; omega)
      exact ⟨after, final, (Reachable.refl.next step).trans run, later⟩

/-- While chunks are left, the consumer reads one more. -/
theorem reads_one
    {system : System}
    {shape : Shape}
    (delivers : Delivers system shape)
    (pending : system.consumed ≠ system.advanced) :
    ∃ after result,
      Reachable ConsumerAlone system after ∧
        Delivers after result ∧
        after.advanced = system.advanced ∧
        after.consumed.length = system.consumed.length + 1 := by
  induction away : system.consumer.distance using Nat.strong_induction_on
    generalizing system shape with
  | _ distance inductionHypothesis =>
      by_cases arrived : distance = 0
      · cases here : system.consumer with
        | holding pointer toread bytes =>
            exact holding_finishes delivers here
        | _ => simp [here, Consumer.distance, arrived] at away
      · obtain ⟨next, step, advanced, consumed, closer⟩ :=
          consumer_closer delivers pending (by omega)
        obtain ⟨result, kept⟩ := consumer_delivers delivers step
        obtain ⟨after, final, run, delivered, sameAdvanced, oneMore⟩ :=
          inductionHypothesis _ (by omega) kept (by rw [advanced, consumed]; exact pending) rfl
        have first : ConsumerAlone system .consumer next := step
        exact ⟨after, final, (Reachable.refl.next first).trans run, delivered,
          sameAdvanced.trans advanced, by rw [oneMore, consumed]⟩

/-- Left alone, the consumer reads every chunk that was advanced. -/
theorem Delivers.readsAll
    {system : System}
    {shape : Shape}
    (delivers : Delivers system shape) :
    ReadsAll system := by
  have begins : system.consumed <+: system.advanced := ⟨_, delivers.order.symm⟩
  induction missing : system.advanced.length - system.consumed.length
    generalizing system shape with
  | zero =>
      have shorter := begins.length_le
      exact ⟨system, .refl, begins.eq_of_length (by omega)⟩
  | succ count inductionHypothesis =>
      have pending : system.consumed ≠ system.advanced := by
        intro same
        rw [same] at missing
        omega
      obtain ⟨after, result, run, kept, advanced, oneMore⟩ := reads_one delivers pending
      obtain ⟨final, later, all⟩ :=
        inductionHypothesis kept ⟨_, kept.order.symm⟩ (by rw [advanced, oneMore]; omega)
      exact ⟨final, run.trans later, all.trans advanced⟩

/-! ## Where a write lands -/

/-- The ring with the head that `ringbuf_write_advance` publishes. -/
def Ringbuf.advance (ringbuf : Ringbuf) (written : Nat) : Ringbuf :=
  { ringbuf with head := advancedHead ringbuf ringbuf.head written }

/--
Writing `written` bytes at the pointer stays inside `buf` and outside what is unread,
and the advance leaves the head where all of this is unread, and the new bytes with it.
-/
structure Lands (ringbuf : Ringbuf) (pointer written : Nat) : Prop where
  inside : ∀ index, index < written → pointer + index < ringbuf.size
  outside : ∀ index, index < written → ¬ Used ringbuf (pointer + index)
  kept : ∀ cell, cell < ringbuf.size → Used ringbuf cell → Used (ringbuf.advance written) cell
  covered : ∀ index, index < written → Used (ringbuf.advance written) (pointer + index)

/-- The head moves on behind the padded chunk, or from the end of the ring to its start. -/
private theorem advancedHead_cases
    {ringbuf : Ringbuf}
    {written element : Nat}
    (sound : Sound ringbuf)
    (place : Place ringbuf element)
    (stop : element + (8 + ringbufPad written) ≤ ringbuf.size) :
    (element + (8 + ringbufPad written) < ringbuf.size ∧
        advancedHead ringbuf ringbuf.head written = element + (8 + ringbufPad written)) ∨
      (element + (8 + ringbufPad written) = ringbuf.size ∧
        advancedHead ringbuf ringbuf.head written = 0) := by
  rw [advancedHead_eq sound place]
  rcases Nat.lt_or_eq_of_le stop with less | same
  · exact Or.inl ⟨less, Nat.mod_eq_of_lt less⟩
  · right
    rw [same, Nat.mod_self]
    exact ⟨rfl, rfl⟩

/-- An element with room is written where the ring is free and then unread. -/
theorem Room.lands
    {ringbuf : Ringbuf}
    {written element : Nat}
    (sound : Sound ringbuf)
    (word : written + 7 < 2 ^ 32)
    (room : Room ringbuf written element) :
    Lands ringbuf (element + 8) written := by
  have tailInside := sound.tailInside
  have atLeast := (ringbufPad_spec word).1
  have stop : element + (8 + ringbufPad written) ≤ ringbuf.size := by
    unfold Room at room
    omega
  have newHead := @advancedHead_cases ringbuf written element sound room.place stop
  refine ⟨fun index below => by omega, fun index below => room.unused (Or.inl (by omega)), ?_, ?_⟩
  · intro cell within used
    unfold Room at room
    rcases newHead with ⟨less, newHead⟩ | ⟨same, newHead⟩
    · simp only [Used, Ringbuf.advance, newHead] at used ⊢
      split at used <;> split <;> omega
    · simp only [Used, Ringbuf.advance, newHead] at used ⊢
      split at used <;> split <;> omega
  · intro index below
    unfold Room at room
    rcases newHead with ⟨less, newHead⟩ | ⟨same, newHead⟩
    · simp only [Used, Ringbuf.advance, newHead]
      split <;> omega
    · simp only [Used, Ringbuf.advance, newHead]
      split <;> omega

/-- Nothing is unread at the head itself. -/
theorem not_used_head (ringbuf : Ringbuf) : ¬ Used ringbuf ringbuf.head := by
  unfold Used
  split <;> omega

/-- The size of a chunk that is unread as a whole has 32 bits, with its padding. -/
theorem Lands.word
    {ringbuf : Ringbuf}
    {written element : Nat}
    (sound : Sound ringbuf)
    (place : Place ringbuf element)
    (lands : Lands ringbuf (element + 8) written) :
    written + 7 < 2 ^ 32 := by
  by_contra large
  -- The advance then covers less than was written, and the new head is among the new bytes.
  have short : ringbufPad written < written := by
    have masked := ringbufPad_le written
    omega
  have below := lands.inside (ringbufPad written) short
  have newHead : advancedHead ringbuf ringbuf.head written =
      element + 8 + ringbufPad written := by
    rw [advancedHead_eq sound place, Nat.mod_eq_of_lt (by omega)]
    omega
  have covered := lands.covered (ringbufPad written) short
  rw [← newHead] at covered
  exact not_used_head (ringbuf.advance written) covered

/-- A write that lands well had room for the header and the padding as well. -/
theorem Lands.room
    {ringbuf : Ringbuf}
    {minimum written element : Nat}
    (sound : Sound ringbuf)
    (reserved : Room ringbuf minimum element)
    (lands : Lands ringbuf (element + 8) written) :
    Room ringbuf written element := by
  have word := lands.word sound reserved.place
  have padded := ringbufPad_eq word
  have headAligned := sound.headAligned
  have tailAligned := sound.tailAligned
  have headInside := sound.headInside
  rcases Nat.eq_zero_or_pos written with rfl | positive
  · have nothing : ringbufPad 0 = 0 := by decide
    unfold Room at reserved ⊢
    omega
  have below := lands.inside (written - 1) (by omega)
  have aligned := sound.size_aligned (by omega)
  have elementAligned : 8 ∣ element := by
    unfold Room at reserved
    omega
  have stop : element + (8 + ringbufPad written) ≤ ringbuf.size := by
    omega
  -- With the padding, what ends at the tail or before it still does.
  have padding : element + 8 + written ≤ ringbuf.tail →
      element + (8 + ringbufPad written) ≤ ringbuf.tail := by
    omega
  have apart := lands.outside (written - 1) (by omega)
  have meets := lands.outside (ringbuf.tail - (element + 8))
  have covered := lands.covered 0 positive
  have newHead := @advancedHead_cases ringbuf written element sound reserved.place stop
  clear padded headAligned tailAligned aligned elementAligned
  unfold Room at reserved ⊢
  rcases newHead with ⟨less, newHead⟩ | ⟨same, newHead⟩
  · simp only [Used, Ringbuf.advance, newHead] at apart meets covered
    split at apart <;> split at covered <;> omega
  · simp only [Used, Ringbuf.advance, newHead] at apart meets covered
    split at apart <;> split at covered <;> omega

/-! ## Writing a chunk -/

/-- The chunk is written at the pointer and advanced over while the consumer stands still. -/
def System.writeChunk (system : System) (pointer : Nat) (chunk : List UInt8) : System :=
  { system with
    ringbuf :=
      { system.ringbuf with
        buf :=
          applyStores (write system.ringbuf.buf pointer chunk)
            (headerStores system.ringbuf system.ringbuf.head chunk.length)
        head := advancedHead system.ringbuf system.ringbuf.head chunk.length }
    producer := .idle
    advanced := system.advanced ++ [chunk] }

section Writing

variable
  {start system : System}
  {amount pointer : Nat}

/-- The steps of a thread choose no amount. -/
theorem next_thread
    {after : System}
    {role : Role}
    (reachable : Reachable TakenStep start system)
    (step : Step system role after) :
    Reachable TakenStep start after :=
  reachable.next ⟨.thread step, trivial⟩

/-- The producer writes its bytes one behind the other. -/
theorem fills
    {bytes : List UInt8}
    (reachable : Reachable TakenStep start system)
    (here : system.producer = .reserved amount pointer)
    (short : bytes.length ≤ amount) :
    Reachable TakenStep start
      { system with
        ringbuf := { system.ringbuf with buf := write system.ringbuf.buf pointer bytes } } := by
  induction bytes using List.reverseRecOn with
  | nil =>
      rw [write_nil]
      exact reachable
  | append_singleton bytes byte inductionHypothesis =>
      rw [List.length_append, List.length_singleton] at short
      have earlier := inductionHypothesis (by omega)
      rw [write_append]
      have inside : bytes.length < amount := by omega
      let filled : System :=
        { system with
          ringbuf := { system.ringbuf with buf := write system.ringbuf.buf pointer bytes } }
      have filledHere : filled.producer = .reserved amount pointer := here
      exact next_thread earlier (.producer (.fill filledHere inside byte))

/-- The header stores of an advance are made one after the other. -/
theorem stores_all
    {head written : Nat}
    {chunk : List UInt8}
    {stores : List (Nat × List UInt8)}
    (reachable : Reachable TakenStep start system)
    (here : system.producer = .storing head written chunk stores) :
    Reachable TakenStep start
      { system with
        ringbuf := { system.ringbuf with buf := applyStores system.ringbuf.buf stores }
        producer := .storing head written chunk [] } := by
  induction stores generalizing system with
  | nil =>
      have same : system =
          { system with
            ringbuf := { system.ringbuf with buf := applyStores system.ringbuf.buf [] }
            producer := .storing head written chunk [] } := by
        rw [← here]
        rfl
      rw [← same]
      exact reachable
  | cons first rest inductionHypothesis =>
      exact inductionHypothesis (next_thread reachable (.producer (.store here))) rfl

/-- A producer with a pointer writes a chunk and advances over it. -/
theorem writes_chunk
    {chunk : List UInt8}
    (reachable : Reachable TakenStep start system)
    (here : system.producer = .reserved amount pointer)
    (short : chunk.length ≤ amount)
    (asserted : chunk.length ≤ system.ringbuf.rsvd) :
    Reachable TakenStep start (system.writeChunk pointer chunk) := by
  have filled := fills reachable here short
  have advancing := next_thread filled (.producer (.advance here short asserted))
  have stored := stores_all advancing rfl
  have published := next_thread stored (.producer (.publish rfl))
  simp only [read_write] at published
  exact published

end Writing

/-! ## Which amounts the ring takes -/

/-- The producer may write this many bytes: they land well, and the consumer reads them next. -/
structure Written (system : System) (pointer written : Nat) : Prop where
  lands : Lands system.ringbuf pointer written
  delivered :
    ∀ chunk : List UInt8, chunk.length = written → ReadsAll (system.writeChunk pointer chunk)

/-- In every run that keeps to them, the amounts that can be written are those the ring takes. -/
theorem written_iff_takes
    {memory ringbuf : Ringbuf}
    {exponent minimum pointer written : Nat}
    {system : System}
    (small : exponent < 64)
    (reachable :
      Reachable TakenStep (System.initial (ringbufInit memory (2 ^ exponent))) system)
    (granted : Granted system minimum ringbuf pointer)
    (reported : written ≤ ringbuf.rsvd) :
    Written (system.reserve ringbuf pointer written) pointer written ↔
      Takes system.ringbuf minimum written := by
  obtain ⟨shape, delivers⟩ := delivers_taken small reachable
  obtain ⟨rsvd, gapd, element, rfl, rfl, enough, room⟩ := granted.room delivers
  have sound : Sound (system.ringbuf.reserve rsvd gapd) := { delivers.sound with }
  constructor
  · intro done
    exact ⟨done.lands.word sound ((room minimum).mpr enough).place,
      (room written).mp (done.lands.room sound ((room minimum).mpr enough))⟩
  · rintro ⟨word, fits⟩
    refine ⟨((room written).mpr fits).lands sound word, ?_⟩
    rintro chunk rfl
    have chosen := reachable.next ⟨.choose granted reported, ⟨word, fits⟩⟩
    have published := writes_chunk chosen rfl (Nat.le_refl _) reported
    obtain ⟨result, kept⟩ := delivers_taken small published
    exact kept.readsAll

/--
What both threads rely on: chunks are read in order and all of them can be, and the
producer writes inside `buf` to bytes that are not unread.
-/
structure Undisturbed (system : System) : Prop where
  ordered : system.consumed <+: system.advanced
  readsOn : ReadsAll system
  writable :
    ∀ amount pointer,
      system.producer = .reserved amount pointer →
      ∀ index, index < amount →
        pointer + index < system.ringbuf.size ∧ ¬ Used system.ringbuf (pointer + index)

/-- The invariant of the two threads is what they rely on. -/
theorem Delivers.undisturbed
    {system : System}
    {shape : Shape}
    (delivers : Delivers system shape) :
    Undisturbed system := by
  refine ⟨⟨_, delivers.order.symm⟩, delivers.readsAll, ?_⟩
  intro amount pointer here index below
  have producer := delivers.producer
  rw [here] at producer
  obtain ⟨word, _, element, rfl, room⟩ := producer
  have lands := room.lands delivers.sound word
  exact ⟨lands.inside index below, lands.outside index below⟩

/--
In every run that keeps to the amounts the ring takes, neither thread disturbs the
other, and after every request these are the amounts up to `*maximum` that can be
written.
-/
theorem reported_maximum_written_iff
    {memory : Ringbuf}
    {exponent : Nat}
    {system : System}
    (small : exponent < 64)
    (reachable :
      Reachable TakenStep (System.initial (ringbufInit memory (2 ^ exponent))) system) :
    Undisturbed system ∧
      ∀ ringbuf minimum pointer written,
        Granted system minimum ringbuf pointer →
        written ≤ ringbuf.rsvd →
        (Written (system.reserve ringbuf pointer written) pointer written ↔
          Takes system.ringbuf minimum written) := by
  obtain ⟨shape, delivers⟩ := delivers_taken small reachable
  exact ⟨delivers.undisturbed, fun _ _ _ _ granted reported =>
    written_iff_takes small reachable granted reported⟩

/-- The small ring when its producer has asked for one byte and loaded the head. -/
def askedRing : System :=
  { System.initial smallRing with producer := .loadedHead 1 0 }

/-- The request for one byte reports 63 bytes at offset 8. -/
theorem askedRing_granted : Granted askedRing 1 (smallRing.reserve 63 0) 8 :=
  ⟨0, rfl, rfl⟩

/-- Of the 63 bytes the small ring reports it takes 48. -/
theorem reported_maximum_written_smallRing :
    Undisturbed askedRing ∧
      Written (askedRing.reserve (smallRing.reserve 63 0) 8 48) 8 48 ∧
      ¬ Written (askedRing.reserve (smallRing.reserve 63 0) 8 49) 8 49 := by
  have start : Reachable TakenStep (System.initial smallRing) (System.initial smallRing) := .refl
  have asked : Reachable TakenStep (System.initial smallRing) askedRing :=
    next_thread start (.producer (@ProducerStep.loadHead _ 1 (Or.inl rfl) (by decide)))
  obtain ⟨undisturbed, exact⟩ := reported_maximum_written_iff (by decide) asked
  refine ⟨undisturbed, ?_, ?_⟩
  · apply (exact _ 1 8 48 askedRing_granted (by decide)).mpr
    exact ⟨by decide, by unfold RoomFor; decide⟩
  · intro written
    have takes := (exact _ 1 8 49 askedRing_granted (by decide)).mp written
    exact absurd takes.2 (by unfold RoomFor; decide)

/-- Writing the 63 bytes that the small ring reports leaves `buf`. -/
theorem reported_maximum_leaves_buf :
    Reachable MaximumStep (System.initial smallRing) askedRing ∧
      Granted askedRing 1 (smallRing.reserve 63 0) 8 ∧
      63 ≤ (smallRing.reserve 63 0).rsvd ∧
      ¬ 8 + 62 < (smallRing.reserve 63 0).size ∧
      ¬ Written (askedRing.reserve (smallRing.reserve 63 0) 8 63) 8 63 := by
  have start : Reachable MaximumStep (System.initial smallRing) (System.initial smallRing) := .refl
  have asked : Reachable MaximumStep (System.initial smallRing) askedRing :=
    start.next
      (.thread (.producer (@ProducerStep.loadHead _ 1 (Or.inl rfl) (by decide))))
  refine ⟨asked, askedRing_granted, by decide, by decide, ?_⟩
  intro written
  exact absurd (written.lands.inside 62 (by decide)) (by decide)

end Sysprog.ChunkRing
