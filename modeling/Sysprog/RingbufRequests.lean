import Sysprog.RingbufHistory

namespace Sysprog.ChunkRing

open ByteMemory Execution MachineWord

/-!
# What a request returns

A request takes the first run of free bytes that is long enough for the size it computes.
That size goes through a mask of 32 bits, so a request for 2 ^ 32 bytes or more may be
given a run that is too short.  Requests for small sizes always succeed in a drained ring,
wherever its indices stand.
-/

/-! ## The pointer -/

/--
The free bytes from the head to the end of the ring, when the tail is not among them.  The
head may not move on to the tail, which the last byte keeps from happening at the start.
-/
def lastPart (ringbuf : Ringbuf) : Nat :=
  if ringbuf.tail = 0 then ringbuf.size - ringbuf.head - 1 else ringbuf.size - ringbuf.head

/-- The pointer that a request returns, in plain arithmetic. -/
theorem writeRequest_pointer
    {ringbuf : Ringbuf}
    (sound : Sound ringbuf)
    (minimum : Nat) :
    (ringbufWriteRequestMax ringbuf ringbuf.head ringbuf.tail minimum).2 =
      if ringbuf.head < ringbuf.tail then
        if 16 + ringbufPad minimum < ringbuf.tail - ringbuf.head then
          some (ringbuf.head + 8)
        else
          none
      else if 16 + ringbufPad minimum ≤ lastPart ringbuf then
        some (ringbuf.head + 8)
      else if 16 + ringbufPad minimum < ringbuf.tail then
        some 8
      else
        none := by
  have headInside := sound.headInside
  rw [writeRequest_eq sound, lastPart]
  by_cases ahead : ringbuf.head < ringbuf.tail
  · rw [if_pos ahead, if_pos ahead]
    split <;> rfl
  rw [if_neg ahead, if_neg ahead]
  by_cases start : ringbuf.tail = 0
  · rw [if_pos start, if_pos start, start]
    by_cases enough : 16 + ringbufPad minimum < ringbuf.size - ringbuf.head
    · rw [if_pos enough, if_pos (by omega)]
    · rw [if_neg enough, if_neg (by omega), if_neg (Nat.not_lt_zero _)]
  · rw [if_neg start, if_neg start]
    split
    · rfl
    · split <;> rfl

/-! ## A drained ring -/

/-- An empty ring has room for every chunk that takes at most half of it. -/
theorem drained_request
    {ringbuf : Ringbuf}
    {minimum : Nat}
    (sound : Sound ringbuf)
    (drained : ringbuf.head = ringbuf.tail)
    (half : 16 + ringbufPad minimum ≤ ringbuf.size / 2) :
    ((ringbufWriteRequestMax ringbuf ringbuf.head ringbuf.tail minimum).2).isSome := by
  have headInside := sound.headInside
  rw [writeRequest_pointer sound, if_neg (by omega)]
  by_cases enough : 16 + ringbufPad minimum ≤ lastPart ringbuf
  · rw [if_pos enough]
    rfl
  · -- Less than half is left behind the head, so more than half lies before it.
    have before : 16 + ringbufPad minimum < ringbuf.tail := by
      rw [lastPart] at enough
      split at enough <;> omega
    rw [if_neg enough, if_pos before]
    rfl

/-- A request changes what is noted of its reservation only. -/
theorem writeRequest_reserves (ringbuf : Ringbuf) (head tail minimum : Nat) :
    ∃ rsvd gapd,
      (ringbufWriteRequestMax ringbuf head tail minimum).1 = ringbuf.reserve rsvd gapd := by
  simp only [ringbufWriteRequestMax]
  split
  · split
    · split
      · exact ⟨_, _, rfl⟩
      · exact ⟨_, _, rfl⟩
    · exact ⟨_, _, rfl⟩
  · split
    · exact ⟨_, _, rfl⟩
    · exact ⟨_, _, rfl⟩

/-- No step changes the size of the ring. -/
theorem step_size
    {before after : System}
    {role : Role}
    (step : Step before role after) :
    after.ringbuf.size = before.ringbuf.size := by
  cases step with
  | producer step =>
      cases step with
      | @loadTail minimum head here =>
          obtain ⟨rsvd, gapd, reserved⟩ :=
            writeRequest_reserves before.ringbuf head before.ringbuf.tail minimum
          simp only [reserved, Ringbuf.reserve]
      | _ => rfl
  | consumer step =>
      cases step with
      | _ => rfl

/--
In every reachable state in which the ring is drained, a request that takes at most half
of the ring succeeds.
-/
theorem drained_request_succeeds
    {memory : Ringbuf}
    {exponent minimum : Nat}
    {system : System}
    (small : exponent < 64)
    (reachable :
      Reachable Step (System.initial (ringbufInit memory (2 ^ exponent))) system)
    (drained : system.ringbuf.head = system.ringbuf.tail)
    (half : 16 + ringbufPad minimum ≤ 2 ^ exponent / 2) :
    ((ringbufWriteRequestMax system.ringbuf system.ringbuf.head system.ringbuf.tail
      minimum).2).isSome := by
  obtain ⟨shape, delivers⟩ := delivers_reachable small reachable
  have size : system.ringbuf.size = 2 ^ exponent := by
    have initially : (System.initial (ringbufInit memory (2 ^ exponent))).ringbuf.size =
        2 ^ exponent := rfl
    apply reachable.invariant initially
    intro before role after same step
    exact (step_size step).trans same
  rw [← size] at half
  exact drained_request delivers.sound drained half

/-- A fresh ring of 64 bytes takes a chunk of sixteen. -/
theorem drained_request_smallRing :
    ((ringbufWriteRequestMax smallRing 0 0 16).2).isSome :=
  @drained_request_succeeds _ 6 16 (System.initial smallRing) (by decide) .refl rfl (by decide)

/-! ## Requests of any size -/

/-- A request whose pointer the producer does not use. -/
def System.request (system : System) (minimum : Nat) : System :=
  { system with
    ringbuf :=
      (ringbufWriteRequestMax system.ringbuf system.ringbuf.head system.ringbuf.tail minimum).1
    producer := .idle }

/--
The steps of the two threads, and requests of any size.  The pointer of such a request is
given up, so the chunks that are written are still those of a request below 32 bits.
-/
inductive RequestStep : System → Role → System → Prop where
  | thread
      {before after : System}
      {role : Role}
      (step : Step before role after) :
      RequestStep before role after
  | request
      {system : System}
      (minimum : Nat)
      (free :
        system.producer = .idle ∨
          ∃ former pointer, system.producer = .reserved former pointer) :
      RequestStep system .producer (system.request minimum)

/-- Requests that are given up leave the chunks where they are. -/
theorem requestStep_delivers
    {before after : System}
    {role : Role}
    {shape : Shape}
    (delivers : Delivers before shape)
    (step : RequestStep before role after) :
    ∃ result, Delivers after result := by
  cases step with
  | thread step =>
      cases step with
      | producer step => exact producer_delivers delivers step
      | consumer step => exact consumer_delivers delivers step
  | request minimum free =>
      obtain ⟨sound, fits, _, consumer, order⟩ := delivers
      obtain ⟨rsvd, gapd, reserved⟩ :=
        writeRequest_reserves before.ringbuf before.ringbuf.head before.ringbuf.tail minimum
      simp only [System.request, reserved]
      exact ⟨shape, { sound with }, by cases shape <;> exact fits, trivial, consumer, order⟩

/-- The invariant holds in every state that such steps reach. -/
theorem delivers_requested
    {memory : Ringbuf}
    {exponent : Nat}
    {system : System}
    (small : exponent < 64)
    (reachable :
      Reachable RequestStep (System.initial (ringbufInit memory (2 ^ exponent))) system) :
    ∃ shape, Delivers system shape := by
  have initially :
      ∃ shape, Delivers (System.initial (ringbufInit memory (2 ^ exponent))) shape :=
    ⟨_, delivers_initial small⟩
  apply reachable.invariant initially
  rintro before label after ⟨shape, delivers⟩ step
  exact requestStep_delivers delivers step

/-! ## The bytes that are asked for -/

/-- The cell belongs to one of the chunks that lie one behind the other from `start` on. -/
def Covers : Nat → List (List UInt8) → Nat → Prop
  | _, [], _ => False
  | start, chunk :: rest, cell =>
      (start ≤ cell ∧ cell < start + chunkSpan chunk) ∨ Covers (start + chunkSpan chunk) rest cell

/-- The cell belongs to an unread chunk: to its header, its bytes or its padding. -/
def UnreadChunk (ringbuf : Ringbuf) (cell : Nat) : Prop :=
  ∃ shape,
    Fits ringbuf shape ∧
      match shape with
      | .straight chunks => Covers ringbuf.tail chunks cell
      | .wrapped front back _ => Covers ringbuf.tail front cell ∨ Covers 0 back cell

/-- The chunks of a segment leave no cell out. -/
theorem Segment.covers_iff
    {buf : Memory}
    {start stop cell : Nat}
    {chunks : List (List UInt8)}
    (segment : Segment buf start chunks stop) :
    Covers start chunks cell ↔ start ≤ cell ∧ cell < stop := by
  induction chunks generalizing start with
  | nil =>
      obtain rfl : start = stop := segment
      simp only [Covers, false_iff]
      omega
  | cons chunk rest inductionHypothesis =>
      have first := segment.first_le
      rw [Covers, inductionHypothesis segment.2]
      omega

/--
If the request returns a pointer, the bytes asked for lie inside the buffer, and none of
them belongs to an unread chunk.
-/
def InBounds (ringbuf : Ringbuf) (minimum : Nat) : Prop :=
  ∀ pointer,
    (ringbufWriteRequestMax ringbuf ringbuf.head ringbuf.tail minimum).2 = some pointer →
      ∀ index, index < minimum →
        pointer + index < ringbuf.size ∧ ¬ UnreadChunk ringbuf (pointer + index)

/--
The free bytes that a request for `minimum` bytes is given, if it is given any, are enough
for them: they lie before the tail, where a gap may stand, behind the head, or at the start
of the ring.
-/
def Enough (ringbuf : Ringbuf) (minimum : Nat) : Prop :=
  minimum = 0 ∨
    if ringbuf.head < ringbuf.tail then
      16 + ringbufPad minimum < ringbuf.tail - ringbuf.head →
        ringbuf.head + 8 + minimum ≤
          if elementGap ringbuf.buf ringbuf.tail = 0 then ringbuf.tail else ringbuf.size
    else if 16 + ringbufPad minimum ≤ lastPart ringbuf then
      ringbuf.head + 8 + minimum ≤ ringbuf.size
    else
      16 + ringbufPad minimum < ringbuf.tail →
        8 + minimum ≤ if ringbuf.tail = ringbuf.head then ringbuf.size else ringbuf.tail

/-- Below 32 bits, the bytes are always enough. -/
theorem enough_of_narrow
    {ringbuf : Ringbuf}
    {minimum : Nat}
    (sound : Sound ringbuf)
    (narrow : minimum + 7 < 2 ^ 32) :
    Enough ringbuf minimum := by
  have padLe := (ringbufPad_spec narrow).1
  have headInside := sound.headInside
  have tailInside := sound.tailInside
  have inside : lastPart ringbuf ≤ ringbuf.size - ringbuf.head := by
    rw [lastPart]
    split <;> omega
  right
  by_cases ahead : ringbuf.head < ringbuf.tail
  · rw [if_pos ahead]
    intro granted
    split <;> omega
  · rw [if_neg ahead]
    by_cases last : 16 + ringbufPad minimum ≤ lastPart ringbuf
    · rw [if_pos last]
      omega
    · rw [if_neg last]
      intro granted
      split <;> omega

/-- Where the cells of unread chunks are. -/
theorem UnreadChunk.place
    {ringbuf : Ringbuf}
    {cell : Nat}
    (unread : UnreadChunk ringbuf cell) :
    (ringbuf.head < ringbuf.tail ∧
        (cell < ringbuf.head ∨
          ringbuf.tail ≤ cell ∧ elementGap ringbuf.buf ringbuf.tail = 0)) ∨
      (ringbuf.tail ≤ cell ∧ cell < ringbuf.head) := by
  obtain ⟨shape, fits, covered⟩ := unread
  cases shape with
  | straight chunks =>
      obtain ⟨ordered, segment⟩ := fits
      exact Or.inr (segment.covers_iff.mp covered)
  | wrapped front back gap =>
      obtain ⟨ordered, _, frontSegment, backSegment⟩ := fits
      rcases covered with inFront | inBack
      · have place := frontSegment.covers_iff.mp inFront
        cases front with
        | nil =>
            exact inFront.elim
        | cons chunk rest =>
            exact Or.inl ⟨ordered, Or.inr ⟨place.1, frontSegment.1.noGap⟩⟩
      · exact Or.inl ⟨ordered, Or.inl (backSegment.covers_iff.mp inBack).2⟩

/-- The first unread chunk starts at the tail, unless there is none or a gap stands there. -/
theorem Fits.unreadChunk_tail
    {ringbuf : Ringbuf}
    {shape : Shape}
    (fits : Fits ringbuf shape)
    (tailInside : ringbuf.tail < ringbuf.size)
    (starts :
      (ringbuf.head < ringbuf.tail ∧ elementGap ringbuf.buf ringbuf.tail = 0) ∨
        ringbuf.tail < ringbuf.head) :
    UnreadChunk ringbuf ringbuf.tail := by
  refine ⟨shape, fits, ?_⟩
  cases shape with
  | straight chunks =>
      obtain ⟨ordered, segment⟩ := fits
      exact segment.covers_iff.mpr (by omega)
  | wrapped front back gap =>
      obtain ⟨ordered, ends, frontSegment, _⟩ := fits
      have unmarked : elementGap ringbuf.buf ringbuf.tail = 0 := by
        rcases starts with ⟨_, unmarked⟩ | behind
        · exact unmarked
        · omega
      have upwards := frontSegment.le.1
      have notGap : ringbuf.tail ≠ gap := by
        intro atGap
        rw [atGap] at tailInside unmarked
        exact (ends.gap tailInside).1 unmarked
      exact Or.inl (frontSegment.covers_iff.mpr (by omega))

/-- The bytes that a request promises end inside the buffer. -/
theorem InBounds.le_size
    {ringbuf : Ringbuf}
    {minimum pointer : Nat}
    (inBounds : InBounds ringbuf minimum)
    (returned :
      (ringbufWriteRequestMax ringbuf ringbuf.head ringbuf.tail minimum).2 = some pointer)
    (positive : 0 < minimum) :
    pointer + minimum ≤ ringbuf.size := by
  have last := (inBounds pointer returned (minimum - 1) (by omega)).1
  omega

/-- They end before the tail where an unread chunk stands there. -/
theorem InBounds.le_tail
    {ringbuf : Ringbuf}
    {minimum pointer : Nat}
    (inBounds : InBounds ringbuf minimum)
    (returned :
      (ringbufWriteRequestMax ringbuf ringbuf.head ringbuf.tail minimum).2 = some pointer)
    (before : pointer ≤ ringbuf.tail)
    (unread : UnreadChunk ringbuf ringbuf.tail) :
    pointer + minimum ≤ ringbuf.tail := by
  by_contra long
  have atTail := (inBounds pointer returned (ringbuf.tail - pointer) (by omega)).2
  rw [Nat.add_sub_cancel' before] at atTail
  exact atTail unread

/-- A request that keeps its promise was given enough bytes. -/
theorem Delivers.enough_of_inBounds
    {system : System}
    {shape : Shape}
    {minimum : Nat}
    (delivers : Delivers system shape)
    (inBounds : InBounds system.ringbuf minimum) :
    Enough system.ringbuf minimum := by
  obtain ⟨sound, fits, _, _, _⟩ := delivers
  generalize system.ringbuf = ringbuf at sound fits inBounds
  have tailInside := sound.tailInside
  have pointer := writeRequest_pointer sound minimum
  by_cases nothing : minimum = 0
  · exact Or.inl nothing
  have positive := Nat.pos_of_ne_zero nothing
  right
  by_cases ahead : ringbuf.head < ringbuf.tail
  · rw [if_pos ahead] at pointer ⊢
    intro granted
    rw [if_pos granted] at pointer
    by_cases unmarked : elementGap ringbuf.buf ringbuf.tail = 0
    · rw [if_pos unmarked]
      exact inBounds.le_tail pointer (by omega)
        (fits.unreadChunk_tail tailInside (Or.inl ⟨ahead, unmarked⟩))
    · rw [if_neg unmarked]
      exact inBounds.le_size pointer positive
  rw [if_neg ahead] at pointer ⊢
  by_cases last : 16 + ringbufPad minimum ≤ lastPart ringbuf
  · rw [if_pos last] at pointer ⊢
    exact inBounds.le_size pointer positive
  rw [if_neg last] at pointer ⊢
  intro granted
  rw [if_pos granted] at pointer
  by_cases drained : ringbuf.tail = ringbuf.head
  · rw [if_pos drained]
    exact inBounds.le_size pointer positive
  · rw [if_neg drained]
    exact inBounds.le_tail pointer (by omega)
      (fits.unreadChunk_tail tailInside (Or.inr (by omega)))

/-- A request that is given enough bytes keeps its promise. -/
theorem Delivers.inBounds_of_enough
    {system : System}
    {shape : Shape}
    {minimum : Nat}
    (delivers : Delivers system shape)
    (enough : Enough system.ringbuf minimum) :
    InBounds system.ringbuf minimum := by
  have sound := delivers.sound
  generalize system.ringbuf = ringbuf at sound enough
  have headInside := sound.headInside
  have tailInside := sound.tailInside
  intro place returned index below
  rw [writeRequest_pointer sound minimum] at returned
  rcases enough with nothing | enough
  · omega
  by_cases ahead : ringbuf.head < ringbuf.tail
  · rw [if_pos ahead] at returned enough
    split at returned
    · rename_i granted
      obtain rfl := Option.some.inj returned
      have room := enough granted
      refine ⟨by split at room <;> omega, fun unread => ?_⟩
      rcases unread.place with ⟨_, inBack | ⟨inFront, unmarked⟩⟩ | between
      · omega
      · rw [if_pos unmarked] at room
        omega
      · omega
    · simp at returned
  rw [if_neg ahead] at returned enough
  split at returned
  · rename_i last
    rw [if_pos last] at enough
    obtain rfl := Option.some.inj returned
    refine ⟨by omega, fun unread => ?_⟩
    have unreadPlace := unread.place
    omega
  · rename_i last
    rw [if_neg last] at enough
    split at returned
    · rename_i granted
      obtain rfl := Option.some.inj returned
      have room := enough granted
      refine ⟨by split at room <;> omega, fun unread => ?_⟩
      have unreadPlace := unread.place
      split at room <;> omega
    · simp at returned

/--
Exactly when a request of any size keeps its promise, in every reachable state: when the
free bytes it is given, if any, are enough.
-/
theorem request_in_bounds_iff
    {memory : Ringbuf}
    {exponent : Nat}
    {system : System}
    (small : exponent < 64)
    (reachable :
      Reachable RequestStep (System.initial (ringbufInit memory (2 ^ exponent))) system)
    (minimum : Nat) :
    InBounds system.ringbuf minimum ↔ Enough system.ringbuf minimum := by
  obtain ⟨shape, delivers⟩ := delivers_requested small reachable
  exact ⟨delivers.enough_of_inBounds, delivers.inBounds_of_enough⟩

/-- Below 32 bits, requests keep their promise in a ring of 64 bytes. -/
theorem request_in_bounds_smallRing : InBounds smallRing 48 :=
  (@request_in_bounds_iff _ 6 (System.initial smallRing) (by decide) .refl 48).mpr
    (enough_of_narrow (delivers_initial (by decide)).sound (by decide))

/-- A request for 2 ^ 32 bytes is given the 64 bytes of the ring. -/
theorem huge_request_out_of_bounds : ¬ InBounds smallRing (2 ^ 32) := by
  intro inBounds
  have outside := inBounds 8 (by decide) 56 (by decide)
  simp [smallRing, ringbufInit] at outside

end Sysprog.ChunkRing
