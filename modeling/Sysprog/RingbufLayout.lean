import Sysprog.RingbufModel

namespace Sysprog.ChunkRing

open ByteMemory MachineWord

/-!
# What the ring holds between its indices

Unread chunks lie one behind the other from `tail` to `head`, or from `tail` to the end
of the ring, which a gap element may cover, and on from the start to `head`.
-/

/-! ## Padding and masking -/

/-- Below the width of the mask, clearing three bits rounds down to a multiple of eight. -/
private theorem clear_low_bits
    {value : Nat}
    (word : value < 2 ^ 32) :
    value &&& 0xFFFFFFF8 = value / 8 * 8 := by
  have mask : 0xFFFFFFF8 = (2 ^ 29 - 1) <<< 3 := by decide
  have rounded : value / 8 * 8 = (value >>> 3) <<< 3 := by
    rw [Nat.shiftLeft_eq, Nat.shiftRight_eq_div_pow]
  rw [mask, rounded]
  apply Nat.eq_of_testBit_eq
  intro bit
  rw [Nat.testBit_and, Nat.testBit_shiftLeft, Nat.testBit_shiftLeft, Nat.testBit_shiftRight,
    Nat.testBit_two_pow_sub_one]
  by_cases low : 3 ≤ bit
  · by_cases high : bit < 32
    · have below : bit - 3 < 29 := by omega
      simp [low, below, Nat.add_sub_cancel' low]
    · have empty : value.testBit bit = false := by
        apply Nat.testBit_lt_two_pow
        calc
          value < 2 ^ 32 := word
          _ ≤ 2 ^ bit := Nat.pow_le_pow_right (by decide) (by omega)
      simp [empty, low, Nat.add_sub_cancel' low]
  · simp [low]

/-- `RINGBUF_PAD` rounds up to a multiple of eight while nothing leaves 32 bits. -/
theorem ringbufPad_eq
    {size : Nat}
    (word : size + 7 < 2 ^ 32) :
    ringbufPad size = (size + 7) / 8 * 8 := by
  rw [ringbufPad, add_of_lt (Nat.lt_trans word (by decide))]
  exact clear_low_bits word

/-- The mask keeps every padding below 32 bits. -/
theorem ringbufPad_le (size : Nat) : ringbufPad size ≤ 0xFFFFFFF8 :=
  Nat.and_le_right

/-- What the padding of a size amounts to. -/
theorem ringbufPad_spec
    {size : Nat}
    (word : size + 7 < 2 ^ 32) :
    size ≤ ringbufPad size ∧ 8 ∣ ringbufPad size ∧ 2 * (16 + ringbufPad size) < words := by
  have narrow : 2 * (16 + 2 ^ 32) < words := by decide
  rw [ringbufPad_eq word]
  exact ⟨by omega, Nat.dvd_mul_left 8 _, by omega⟩

/-- Padding is monotone. -/
theorem ringbufPad_mono
    {smaller larger : Nat}
    (ordered : smaller ≤ larger)
    (word : larger + 7 < 2 ^ 32) :
    ringbufPad smaller ≤ ringbufPad larger := by
  rw [ringbufPad_eq word, ringbufPad_eq (by omega)]
  omega

/-- A ring of power-of-two size with aligned indices inside. -/
structure Sound (ringbuf : Ringbuf) : Prop where
  power : ∃ exponent, exponent < 64 ∧ ringbuf.size = 2 ^ exponent
  maskEq : ringbuf.mask = ringbuf.size - 1
  headAligned : 8 ∣ ringbuf.head
  tailAligned : 8 ∣ ringbuf.tail
  headInside : ringbuf.head < ringbuf.size
  tailInside : ringbuf.tail < ringbuf.size

namespace Sound

variable {ringbuf : Ringbuf}

/-- The size is at most half of the address space. -/
theorem size_le (sound : Sound ringbuf) : 2 * ringbuf.size ≤ words := by
  obtain ⟨exponent, small, eq⟩ := sound.power
  rw [eq, ← Nat.pow_succ']
  exact Nat.pow_le_pow_right (by decide) small

/-- Masking reduces modulo the size. -/
theorem and_mask (sound : Sound ringbuf) (index : Nat) :
    index &&& ringbuf.mask = index % ringbuf.size := by
  obtain ⟨exponent, _, eq⟩ := sound.power
  rw [sound.maskEq, eq]
  exact Nat.and_two_pow_sub_one_eq_mod index exponent

/-- A ring that holds an element header is a whole number of them. -/
theorem size_aligned (sound : Sound ringbuf) (large : 8 ≤ ringbuf.size) : 8 ∣ ringbuf.size := by
  obtain ⟨exponent, _, eq⟩ := sound.power
  have powers : 2 ^ 3 ≤ 2 ^ exponent := by
    rw [← eq]
    exact large
  have atLeast : 3 ≤ exponent := (Nat.pow_le_pow_iff_right (by decide)).mp powers
  rw [eq]
  exact Nat.pow_dvd_pow 2 atLeast

end Sound

/-! ## Chunks in memory -/

/-- A chunk is stored as the element at this offset. -/
structure ChunkAt (buf : Memory) (element : Nat) (chunk : List UInt8) : Prop where
  word : chunk.length + 7 < 2 ^ 32
  size : elementSize buf element = chunk.length
  noGap : elementGap buf element = 0
  bytes : read buf (element + 8) chunk.length = chunk

/-- The bytes a chunk takes with its header and padding. -/
def chunkSpan (chunk : List UInt8) : Nat :=
  8 + ringbufPad chunk.length

/-- The chunks are stored one behind the other from `start` to `stop`. -/
def Segment (buf : Memory) : Nat → List (List UInt8) → Nat → Prop
  | start, [], stop => start = stop
  | start, chunk :: rest, stop =>
      ChunkAt buf start chunk ∧ Segment buf (start + chunkSpan chunk) rest stop

section Segments

variable
  {buf other : Memory}
  {start stop : Nat}
  {chunk : List UInt8}
  {chunks : List (List UInt8)}

/-- The header and the bytes lie within the span of a chunk. -/
theorem ChunkAt.inside (stored : ChunkAt buf start chunk) :
    8 + chunk.length ≤ chunkSpan chunk ∧ 8 ∣ chunkSpan chunk := by
  obtain ⟨atLeast, aligned, _⟩ := ringbufPad_spec stored.word
  rw [chunkSpan]
  exact ⟨by omega, by omega⟩

/-- A chunk is read from its span only. -/
theorem ChunkAt.congr
    (stored : ChunkAt buf start chunk)
    (agree : ∀ cell, start ≤ cell → cell < start + chunkSpan chunk → other cell = buf cell) :
    ChunkAt other start chunk := by
  have inside := stored.inside.1
  have same : ∀ offset length, offset + length ≤ chunkSpan chunk →
      read other (start + offset) length = read buf (start + offset) length := by
    intro offset length within
    apply read_congr
    intro index below
    exact agree _ (by omega) (by omega)
  obtain ⟨word, size, noGap, bytes⟩ := stored
  have sizeSame := same 0 4 (by omega)
  simp only [Nat.add_zero] at sizeSame
  refine ⟨word, ?_, ?_, ?_⟩
  · rw [elementSize, sizeSame]
    exact size
  · rw [elementGap, same 4 4 (by omega)]
    exact noGap
  · rw [same 8 chunk.length inside]
    exact bytes

/-- Segments run upwards in steps of eight bytes. -/
theorem Segment.le (segment : Segment buf start chunks stop) :
    start ≤ stop ∧ (8 ∣ start → 8 ∣ stop) := by
  induction chunks generalizing start with
  | nil =>
      obtain rfl : start = stop := segment
      exact ⟨Nat.le_refl start, id⟩
  | cons chunk rest inductionHypothesis =>
      obtain ⟨first, later⟩ := segment
      obtain ⟨upwards, aligned⟩ := inductionHypothesis later
      obtain ⟨_, spanAligned⟩ := first.inside
      refine ⟨by omega, fun startAligned => aligned (by omega)⟩

/-- The first chunk of a segment ends within it. -/
theorem Segment.first_le (segment : Segment buf start (chunk :: chunks) stop) :
    start + chunkSpan chunk ≤ stop :=
  segment.2.le.1

/-- A segment is read from its own bytes only. -/
theorem Segment.congr
    (segment : Segment buf start chunks stop)
    (agree : ∀ cell, start ≤ cell → cell < stop → other cell = buf cell) :
    Segment other start chunks stop := by
  induction chunks generalizing start with
  | nil =>
      exact segment
  | cons chunk rest inductionHypothesis =>
      obtain ⟨first, later⟩ := segment
      have upwards := later.le.1
      refine ⟨first.congr ?_, inductionHypothesis later ?_⟩
      · intro cell above below
        exact agree cell above (by omega)
      · intro cell above below
        exact agree cell (by omega) below

/-- One more chunk at the end of a segment. -/
theorem Segment.concat
    (segment : Segment buf start chunks stop)
    (last : ChunkAt buf stop chunk) :
    Segment buf start (chunks ++ [chunk]) (stop + chunkSpan chunk) := by
  induction chunks generalizing start with
  | nil =>
      obtain rfl : start = stop := segment
      exact ⟨last, rfl⟩
  | cons first rest inductionHypothesis =>
      exact ⟨segment.1, inductionHypothesis segment.2⟩

end Segments

/-! ## The two shapes of a ring -/

/--
Where the unread chunks lie: in one piece, or in two of which the first ends at a gap
element or at the end of the ring.
-/
inductive Shape where
  | straight (chunks : List (List UInt8))
  | wrapped (front back : List (List UInt8)) (gap : Nat)

namespace Shape

/-- The unread chunks in order. -/
def unread : Shape → List (List UInt8)
  | straight chunks => chunks
  | wrapped front back _ => front ++ back

/-- The chunk stored at `tail`, if there is one. -/
def first : Shape → Option (List UInt8)
  | straight chunks => chunks.head?
  | wrapped front _ _ => front.head?

end Shape

/-- The first of two pieces ends at a gap with a chunk behind it, or at the end of the ring. -/
def FrontEnds (ringbuf : Ringbuf) (back : List (List UInt8)) (gap : Nat) : Prop :=
  (gap < ringbuf.size ∧ elementGap ringbuf.buf gap ≠ 0 ∧ back ≠ []) ∨ gap = ringbuf.size

/-- A first piece that ends inside the ring ends at a gap with a chunk behind it. -/
theorem FrontEnds.gap
    {ringbuf : Ringbuf}
    {back : List (List UInt8)}
    {gap : Nat}
    (ends : FrontEnds ringbuf back gap)
    (inside : gap < ringbuf.size) :
    elementGap ringbuf.buf gap ≠ 0 ∧ back ≠ [] := by
  rcases ends with ⟨_, marked⟩ | atEnd
  · exact marked
  · omega

/-- The ring holds its unread chunks in this shape. -/
def Fits (ringbuf : Ringbuf) : Shape → Prop
  | .straight chunks =>
      ringbuf.tail ≤ ringbuf.head ∧ Segment ringbuf.buf ringbuf.tail chunks ringbuf.head
  | .wrapped front back gap =>
      ringbuf.head < ringbuf.tail ∧
        FrontEnds ringbuf back gap ∧
        Segment ringbuf.buf ringbuf.tail front gap ∧
        Segment ringbuf.buf 0 back ringbuf.head

/-- The cells between `tail` and `head`, which hold what is unread. -/
def Used (ringbuf : Ringbuf) (cell : Nat) : Prop :=
  if ringbuf.head < ringbuf.tail then
    cell < ringbuf.head ∨ ringbuf.tail ≤ cell
  else
    ringbuf.tail ≤ cell ∧ cell < ringbuf.head

/-- Stores to unused cells do not disturb the unread chunks. -/
theorem Fits.congr
    {ringbuf : Ringbuf}
    {shape : Shape}
    {buf : Memory}
    (fits : Fits ringbuf shape)
    (agree : ∀ cell, Used ringbuf cell → buf cell = ringbuf.buf cell) :
    Fits { ringbuf with buf := buf } shape := by
  cases shape with
  | straight chunks =>
      obtain ⟨ordered, segment⟩ := fits
      refine ⟨ordered, segment.congr ?_⟩
      intro cell above below
      apply agree
      rw [Used, if_neg (Nat.not_lt.mpr ordered)]
      exact ⟨above, below⟩
  | wrapped front back gap =>
      obtain ⟨ordered, ends, frontSegment, backSegment⟩ := fits
      have used : ∀ cell, cell < ringbuf.head ∨ ringbuf.tail ≤ cell → buf cell = ringbuf.buf cell := by
        intro cell place
        apply agree
        rw [Used, if_pos ordered]
        exact place
      have upwards := frontSegment.le.1
      refine ⟨ordered, ?_, frontSegment.congr ?_, backSegment.congr ?_⟩
      · have sameMark : elementGap buf gap = elementGap ringbuf.buf gap := by
          rw [elementGap, elementGap]
          congr 1
          apply read_congr
          intro index below
          exact used _ (Or.inr (by omega))
        simp only [FrontEnds, sameMark]
        exact ends
      · intro cell above _
        exact used cell (Or.inr above)
      · intro cell _ below
        exact used cell (Or.inl below)

end Sysprog.ChunkRing
