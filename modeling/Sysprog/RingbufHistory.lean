import Sysprog.RingbufLayout

namespace Sysprog.ChunkRing

open ByteMemory Execution MachineWord

/-!
# The ring delivers its chunks in order

The invariant fixes where the unread chunks lie, that the producer only stores to
cells outside them, and what each thread may rely on while the other one moves: the
producer's reservation stays free when the tail advances, and the chunk at the tail
stays in place when the head advances.
-/

/-! ## Space arithmetic -/

/-- The distance from one index to another around the ring. -/
private theorem distance_eq
    {ringbuf : Ringbuf}
    {first second : Nat}
    (sound : Sound ringbuf)
    (firstInside : first < ringbuf.size)
    (secondInside : second < ringbuf.size) :
    add (sub second first) ringbuf.size &&& ringbuf.mask =
      (second + ringbuf.size - first) % ringbuf.size := by
  have small := sound.size_le
  rw [sound.and_mask]
  by_cases ordered : first ≤ second
  · rw [sub_of_le (by omega) ordered, add_of_lt (by omega),
      show second - first + ringbuf.size = second + ringbuf.size - first by omega]
  · rw [sub_of_lt (by omega) (by omega), add_of_ge (by omega) (by omega),
      show words - (first - second) + ringbuf.size - words = second + ringbuf.size - first by
        omega]

/-- The writable space in plain arithmetic. -/
theorem writableSpace_eq
    {ringbuf : Ringbuf}
    (sound : Sound ringbuf) :
    writableSpace ringbuf ringbuf.head ringbuf.tail =
      if ringbuf.head < ringbuf.tail then
        ringbuf.tail - ringbuf.head - 1
      else if ringbuf.tail < ringbuf.head then
        ringbuf.tail + ringbuf.size - ringbuf.head - 1
      else
        ringbuf.size - 1 := by
  have small := sound.size_le
  have headInside := sound.headInside
  have tailInside := sound.tailInside
  rcases Nat.lt_trichotomy ringbuf.head ringbuf.tail with less | equal | more
  · simp only [writableSpace, if_neg (Nat.lt_asymm less), if_pos less]
    have distance : sub ringbuf.tail ringbuf.head = ringbuf.tail - ringbuf.head :=
      sub_of_le (by omega) (by omega)
    rw [distance, sub_of_le (by omega) (by omega)]
  · simp only [writableSpace, equal, Nat.lt_irrefl, gt_iff_lt, if_false]
    exact sub_of_le (by omega) (by omega)
  · simp only [writableSpace, if_neg (Nat.lt_asymm more), if_pos more]
    rw [distance_eq sound headInside tailInside, Nat.mod_eq_of_lt (by omega),
      sub_of_le (by omega) (by omega)]

/-- The readable space in plain arithmetic. -/
theorem readableSpace_eq
    {ringbuf : Ringbuf}
    (sound : Sound ringbuf) :
    readableSpace ringbuf ringbuf.head ringbuf.tail =
      if ringbuf.head < ringbuf.tail then
        ringbuf.head + ringbuf.size - ringbuf.tail
      else
        ringbuf.head - ringbuf.tail := by
  have small := sound.size_le
  have headInside := sound.headInside
  have tailInside := sound.tailInside
  rcases Nat.lt_trichotomy ringbuf.head ringbuf.tail with less | equal | more
  · simp only [readableSpace, if_neg (Nat.lt_asymm less), if_pos less]
    rw [distance_eq sound tailInside headInside, Nat.mod_eq_of_lt (by omega)]
  · simp only [readableSpace, gt_iff_lt, equal, Nat.lt_irrefl, if_false]
    rw [distance_eq sound tailInside tailInside, Nat.add_sub_cancel_left, Nat.mod_self,
      Nat.sub_self]
  · simp only [readableSpace, if_neg (Nat.lt_asymm more), if_pos more]
    exact sub_of_le (by omega) (by omega)

/-! ## Reservations -/

/--
The element at `element` with `amount` data bytes can be added without meeting unread
bytes: at the head, or behind a gap that covers the end of the ring.
-/
def Room (ringbuf : Ringbuf) (amount element : Nat) : Prop :=
  (ringbuf.gapd = 0 ∧
      element = ringbuf.head ∧
      ringbuf.head + 8 + ringbufPad amount ≤ ringbuf.size ∧
      (ringbuf.head < ringbuf.tail →
        ringbuf.head + 8 + ringbufPad amount < ringbuf.tail) ∧
      (ringbuf.tail = 0 → ringbuf.head + 8 + ringbufPad amount < ringbuf.size)) ∨
    (ringbuf.gapd = ringbuf.size - ringbuf.head ∧
      element = 0 ∧
      ringbuf.tail ≤ ringbuf.head ∧
      8 + ringbufPad amount < ringbuf.tail)

/-- Where a reservation puts the element: at the head, or behind a gap at the start. -/
def Place (ringbuf : Ringbuf) (element : Nat) : Prop :=
  (ringbuf.gapd = 0 ∧ element = ringbuf.head) ∨
    (ringbuf.gapd = ringbuf.size - ringbuf.head ∧ element = 0)

theorem Room.place
    {ringbuf : Ringbuf}
    {amount element : Nat}
    (room : Room ringbuf amount element) :
    Place ringbuf element := by
  unfold Room at room
  unfold Place
  omega

/-- A reservation for more is a reservation for less. -/
theorem Room.mono
    {ringbuf : Ringbuf}
    {amount less element : Nat}
    (room : Room ringbuf amount element)
    (ordered : less ≤ amount)
    (word : amount + 7 < 2 ^ 32) :
    Room ringbuf less element := by
  have smaller := ringbufPad_mono ordered word
  unfold Room at room ⊢
  omega

/--
The same in terms of the indices before the request.  The header and the padded data
end before the tail, before the end of a ring whose tail is zero, before the tail once
more when the end of the ring is too short for the minimum, or at the end of the ring.
-/
def RoomFor (ringbuf : Ringbuf) (minimum amount : Nat) : Prop :=
  if ringbuf.head < ringbuf.tail then
    ringbuf.head + 8 + ringbufPad amount < ringbuf.tail
  else if ringbuf.tail = 0 then
    ringbuf.head + 8 + ringbufPad amount < ringbuf.size
  else if ringbuf.size - ringbuf.head < 16 + ringbufPad minimum then
    8 + ringbufPad amount < ringbuf.tail
  else
    ringbuf.head + 8 + ringbufPad amount ≤ ringbuf.size

/-- The padding of any size is a multiple of eight with room in a word. -/
theorem padded_eq (minimum : Nat) :
    add 16 (ringbufPad minimum) = 16 + ringbufPad minimum := by
  have small := ringbufPad_le minimum
  exact add_of_lt (by unfold words; omega)

/--
`ringbuf_write_request_max` in plain arithmetic.  The free bytes end before the tail, at the
end of a ring whose tail is zero, or go on from the end of the ring to the tail.
-/
theorem writeRequest_eq
    {ringbuf : Ringbuf}
    (sound : Sound ringbuf)
    (minimum : Nat) :
    ringbufWriteRequestMax ringbuf ringbuf.head ringbuf.tail minimum =
      if ringbuf.head < ringbuf.tail then
        if 16 + ringbufPad minimum < ringbuf.tail - ringbuf.head then
          (ringbuf.reserve (ringbuf.tail - ringbuf.head - 1) 0, some (ringbuf.head + 8))
        else
          (ringbuf.reserve 0 0, none)
      else if ringbuf.tail = 0 then
        if 16 + ringbufPad minimum < ringbuf.size - ringbuf.head then
          (ringbuf.reserve (ringbuf.size - ringbuf.head - 1) 0, some (ringbuf.head + 8))
        else
          (ringbuf.reserve 0 0, none)
      else if 16 + ringbufPad minimum ≤ ringbuf.size - ringbuf.head then
        (ringbuf.reserve (ringbuf.size - ringbuf.head) 0, some (ringbuf.head + 8))
      else if 16 + ringbufPad minimum < ringbuf.tail then
        (ringbuf.reserve (ringbuf.tail - 1) (ringbuf.size - ringbuf.head), some 8)
      else
        (ringbuf.reserve 0 0, none) := by
  have small := sound.size_le
  have headInside := sound.headInside
  have tailInside := sound.tailInside
  have tailAligned := sound.tailAligned
  have len1 : sub ringbuf.size ringbuf.head = ringbuf.size - ringbuf.head :=
    sub_of_le (by omega) (by omega)
  have space := writableSpace_eq sound
  simp only [ringbufWriteRequestMax, padded_eq, len1, sound.and_mask]
  generalize 16 + ringbufPad minimum = padded
  rcases Nat.lt_or_ge ringbuf.head ringbuf.tail with ahead | behind
  · rw [if_pos ahead] at space
    have stop : add ringbuf.head (ringbuf.tail - ringbuf.head - 1) = ringbuf.tail - 1 := by
      rw [add_of_lt (by omega)]
      omega
    rw [space, stop, if_neg (by omega), if_pos ahead]
    by_cases enough : padded < ringbuf.tail - ringbuf.head
    · rw [if_neg (by omega), if_pos enough]
    · rw [if_pos (by omega), if_neg enough]
  rw [if_neg (Nat.not_lt.mpr behind)] at space ⊢
  have free : writableSpace ringbuf ringbuf.head ringbuf.tail =
      ringbuf.tail + ringbuf.size - ringbuf.head - 1 := by
    rw [space]
    split <;> omega
  have stop : add ringbuf.head (ringbuf.tail + ringbuf.size - ringbuf.head - 1) =
      ringbuf.tail + ringbuf.size - 1 := by
    rw [add_of_lt (by omega)]
    omega
  rw [free, stop]
  by_cases start : ringbuf.tail = 0
  · rw [if_neg (by omega), if_pos start, start, Nat.zero_add]
    by_cases enough : padded < ringbuf.size - ringbuf.head
    · rw [if_neg (by omega), if_pos enough]
    · rw [if_pos (by omega), if_neg enough]
  · have second : (ringbuf.tail + ringbuf.size - 1) % ringbuf.size = ringbuf.tail - 1 := by
      rw [show ringbuf.tail + ringbuf.size - 1 = ringbuf.tail - 1 + ringbuf.size by omega,
        Nat.add_mod_right, Nat.mod_eq_of_lt (by omega)]
    rw [if_pos (by omega), if_neg start, second]
    by_cases first : padded ≤ ringbuf.size - ringbuf.head
    · rw [if_neg (by omega), if_pos first]
    · rw [if_pos (by omega), if_neg first]
      by_cases enough : padded < ringbuf.tail
      · rw [if_neg (by omega), if_pos enough]
      · rw [if_pos (by omega), if_neg enough]

/-- `ringbuf_write_request_max` either refuses or reserves room for the minimum. -/
theorem writeRequest_room
    {ringbuf : Ringbuf}
    {minimum : Nat}
    (sound : Sound ringbuf)
    (word : minimum + 7 < 2 ^ 32) :
    ∃ rsvd gapd result,
      ringbufWriteRequestMax ringbuf ringbuf.head ringbuf.tail minimum =
          (ringbuf.reserve rsvd gapd, result) ∧
        ∀ pointer,
          result = some pointer →
          minimum ≤ rsvd ∧
            RoomFor ringbuf minimum minimum ∧
            ∃ element,
              pointer = element + 8 ∧
                ∀ amount,
                  Room (ringbuf.reserve rsvd gapd) amount element ↔
                    RoomFor ringbuf minimum amount := by
  have headInside := sound.headInside
  have tailInside := sound.tailInside
  obtain ⟨padLe, _, _⟩ := ringbufPad_spec word
  have refused : ∀ pointer, none = some pointer →
      minimum ≤ 0 ∧
        RoomFor ringbuf minimum minimum ∧
        ∃ element,
          pointer = element + 8 ∧
            ∀ amount,
              Room (ringbuf.reserve 0 0) amount element ↔ RoomFor ringbuf minimum amount := by
    simp
  rw [writeRequest_eq sound]
  by_cases ahead : ringbuf.head < ringbuf.tail
  · rw [if_pos ahead]
    split
    · refine ⟨_, _, _, rfl, ?_⟩
      rintro pointer same
      obtain rfl : ringbuf.head + 8 = pointer := by simpa using same
      simp only [RoomFor, if_pos ahead]
      refine ⟨by omega, by omega, ringbuf.head, rfl, fun amount => ?_⟩
      simp only [Room, Ringbuf.reserve]
      constructor
      · intro room
        omega
      · intro enough
        exact Or.inl ⟨trivial, trivial, by omega, fun _ => enough, by omega⟩
    · exact ⟨0, 0, none, rfl, refused⟩
  rw [if_neg ahead]
  by_cases start : ringbuf.tail = 0
  · rw [if_pos start]
    split
    · refine ⟨_, _, _, rfl, ?_⟩
      rintro pointer same
      obtain rfl : ringbuf.head + 8 = pointer := by simpa using same
      simp only [RoomFor, if_neg ahead, if_pos start]
      refine ⟨by omega, by omega, ringbuf.head, rfl, fun amount => ?_⟩
      simp only [Room, Ringbuf.reserve]
      constructor
      · intro room
        omega
      · intro enough
        exact Or.inl ⟨trivial, trivial, by omega, by omega, fun _ => enough⟩
    · exact ⟨0, 0, none, rfl, refused⟩
  rw [if_neg start]
  by_cases behind : 16 + ringbufPad minimum ≤ ringbuf.size - ringbuf.head
  · rw [if_pos behind]
    refine ⟨_, _, _, rfl, ?_⟩
    rintro pointer same
    obtain rfl : ringbuf.head + 8 = pointer := by simpa using same
    simp only [RoomFor, if_neg ahead, if_neg start, if_neg (Nat.not_lt.mpr behind)]
    refine ⟨by omega, by omega, ringbuf.head, rfl, fun amount => ?_⟩
    simp only [Room, Ringbuf.reserve]
    constructor
    · intro room
      omega
    · intro enough
      exact Or.inl ⟨trivial, trivial, by omega, by omega, by omega⟩
  · -- The end of the ring is too short, so it would become a gap.
    rw [if_neg behind]
    split
    · refine ⟨_, _, _, rfl, ?_⟩
      rintro pointer same
      obtain rfl : 8 = pointer := by simpa using same
      simp only [RoomFor, if_neg ahead, if_neg start, if_pos (Nat.lt_of_not_le behind)]
      refine ⟨by omega, by omega, 0, rfl, fun amount => ?_⟩
      simp only [Room, Ringbuf.reserve]
      constructor
      · intro room
        omega
      · intro enough
        exact Or.inr ⟨trivial, trivial, by omega, by omega⟩
    · exact ⟨0, 0, none, rfl, refused⟩

/-- The reserved element and the gap header before it meet no unread byte. -/
theorem Room.unused
    {ringbuf : Ringbuf}
    {amount element cell : Nat}
    (room : Room ringbuf amount element)
    (inside :
      (element ≤ cell ∧ cell < element + 8 + ringbufPad amount) ∨
        (0 < ringbuf.gapd ∧ ringbuf.head ≤ cell)) :
    ¬ Used ringbuf cell := by
  unfold Room at room
  unfold Used
  split <;> omega

/-- The ways the consumer moves the tail: up to the head or the gap, or past the gap. -/
def Releases (ringbuf : Ringbuf) (tail : Nat) : Prop :=
  (ringbuf.tail ≤ tail ∧ (ringbuf.head < ringbuf.tail ∨ tail ≤ ringbuf.head)) ∨
    (ringbuf.head < ringbuf.tail ∧ tail = 0)

/-- A reservation survives an advance of the tail. -/
theorem Room.release
    {ringbuf : Ringbuf}
    {amount element tail : Nat}
    (sound : Sound ringbuf)
    (room : Room ringbuf amount element)
    (releases : Releases ringbuf tail) :
    Room { ringbuf with tail := tail } amount element := by
  have tailInside := sound.tailInside
  unfold Room at room ⊢
  unfold Releases at releases
  simp only
  omega

/-- An advance of the tail only frees cells. -/
theorem used_of_release
    {ringbuf : Ringbuf}
    {tail cell : Nat}
    (releases : Releases ringbuf tail)
    (used : Used { ringbuf with tail := tail } cell) :
    Used ringbuf cell := by
  unfold Releases at releases
  unfold Used at used ⊢
  simp only at used
  split at used
  · split <;> omega
  · split <;> omega

/-! ## The producer -/

/-- Memory after a list of stores. -/
def applyStores (buf : Memory) : List (Nat × List UInt8) → Memory
  | [] => buf
  | (address, bytes) :: rest => applyStores (write buf address bytes) rest

/-- What remains of `ringbuf_write_advance` will complete the element and its gap. -/
structure Completing
    (ringbuf : Ringbuf)
    (element : Nat)
    (chunk : List UInt8)
    (stores : List (Nat × List UInt8)) : Prop where
  chunkAt : ChunkAt (applyStores ringbuf.buf stores) element chunk
  gapMarked :
    0 < ringbuf.gapd → elementGap (applyStores ringbuf.buf stores) ringbuf.head ≠ 0
  unused :
    ∀ store ∈ stores, ∀ cell, store.1 ≤ cell → cell < store.1 + store.2.length →
      ¬ Used ringbuf cell

/-- What holds of the producer in each of its states. -/
def ProducerOk (ringbuf : Ringbuf) : Producer → Prop
  | .idle => True
  | .loadedHead minimum head => head = ringbuf.head ∧ minimum + 7 < 2 ^ 32
  | .reserved minimum pointer =>
      minimum + 7 < 2 ^ 32 ∧
        minimum ≤ ringbuf.rsvd ∧
        ∃ element, pointer = element + 8 ∧ Room ringbuf minimum element
  | .storing head written chunk stores =>
      head = ringbuf.head ∧
        chunk.length = written ∧
        ∃ element, Room ringbuf written element ∧ Completing ringbuf element chunk stores

/-- The consumer's advance of the tail does not disturb the producer. -/
theorem ProducerOk.release
    {ringbuf : Ringbuf}
    {producer : Producer}
    {tail : Nat}
    (sound : Sound ringbuf)
    (ok : ProducerOk ringbuf producer)
    (releases : Releases ringbuf tail) :
    ProducerOk { ringbuf with tail := tail } producer := by
  cases producer with
  | idle =>
      trivial
  | loadedHead minimum head =>
      exact ok
  | reserved minimum pointer =>
      obtain ⟨word, asserted, element, place, room⟩ := ok
      exact ⟨word, asserted, element, place, room.release sound releases⟩
  | storing head written chunk stores =>
      obtain ⟨atHead, length, element, room, completing⟩ := ok
      refine ⟨atHead, length, element, room.release sound releases, completing.chunkAt,
        completing.gapMarked, ?_⟩
      intro store member cell above below used
      exact completing.unused store member cell above below (used_of_release releases used)

/-- The header stores go to the reserved element and the gap header. -/
private theorem headerStores_inside
    {ringbuf : Ringbuf}
    {written element cell : Nat}
    {store : Nat × List UInt8}
    (headInside : ringbuf.head < ringbuf.size)
    (room : Room ringbuf written element)
    (member : store ∈ headerStores ringbuf ringbuf.head written)
    (above : store.1 ≤ cell)
    (below : cell < store.1 + store.2.length) :
    (element ≤ cell ∧ cell < element + 8 + ringbufPad written) ∨
      (0 < ringbuf.gapd ∧ ringbuf.head ≤ cell) := by
  unfold headerStores at member
  split at member
  · rename_i gapped
    have atStart : element = 0 := by
      unfold Room at room
      omega
    simp only [List.mem_cons, List.not_mem_nil, or_false] at member
    rcases member with rfl | rfl | rfl | rfl <;>
      simp only [length_encode] at above below <;> omega
  · have atHead : element = ringbuf.head := by
      unfold Room at room
      omega
    simp only [List.mem_cons, List.not_mem_nil, or_false] at member
    rcases member with rfl | rfl <;> simp only [length_encode] at above below <;> omega

/-- The stores of `ringbuf_write_advance` complete the reserved element. -/
theorem completing_headerStores
    {ringbuf : Ringbuf}
    {written element : Nat}
    (sound : Sound ringbuf)
    (word : written + 7 < 2 ^ 32)
    (room : Room ringbuf written element) :
    Completing ringbuf element (read ringbuf.buf (element + 8) written)
      (headerStores ringbuf ringbuf.head written) := by
  have narrow : written < 256 ^ 4 := by
    have : (256 : Nat) ^ 4 = 2 ^ 32 := by decide
    omega
  have sizeBack : decode (encode 4 written) = written := decode_encode_of_lt narrow
  have zeroBack : decode (encode 4 0) = 0 := by decide
  have oneBack : decode (encode 4 1) = 1 := by decide
  have pad := (ringbufPad_spec word).1
  have headInside := sound.headInside
  suffices stored :
      ChunkAt (applyStores ringbuf.buf (headerStores ringbuf ringbuf.head written)) element
          (read ringbuf.buf (element + 8) written) ∧
        (0 < ringbuf.gapd →
          elementGap (applyStores ringbuf.buf (headerStores ringbuf ringbuf.head written))
            ringbuf.head ≠ 0) from
    ⟨stored.1, stored.2, fun store member cell above below =>
      room.unused (headerStores_inside headInside room member above below)⟩
  rcases room with ⟨noGap, rfl, _⟩ | ⟨gap, rfl, behind, fits⟩
  · have stores : headerStores ringbuf ringbuf.head written =
        [(ringbuf.head, encode 4 written), (ringbuf.head + 4, encode 4 0)] := by
      simp [headerStores, noGap]
    simp only [stores, applyStores]
    refine ⟨⟨by simpa using word, ?_, ?_, ?_⟩, fun positive => by omega⟩
    · rw [elementSize, read_write_disjoint (Or.inl (Nat.le_refl _)),
        read_write_of_length (length_encode 4 written), sizeBack, length_read]
    · rw [elementGap, read_write_of_length (length_encode 4 0), zeroBack]
    · rw [length_read, read_write_disjoint (Or.inr (by simp)),
        read_write_disjoint (Or.inr (by simp))]
  · have gapped : ringbuf.gapd > 0 := by omega
    simp only [headerStores, if_pos gapped, applyStores]
    refine ⟨⟨by simpa using word, ?_, ?_, ?_⟩, fun _ => ?_⟩
    · rw [elementSize, read_write_disjoint (Or.inl (by decide)),
        read_write_of_length (length_encode 4 written), sizeBack, length_read]
    · rw [elementGap, Nat.zero_add, read_write_of_length (length_encode 4 0), zeroBack]
    · rw [length_read, read_write_disjoint (Or.inr (by simp)),
        read_write_disjoint (Or.inr (by simp)), read_write_disjoint (Or.inl (by omega)),
        read_write_disjoint (Or.inl (by omega))]
    · rw [elementGap, read_write_disjoint (Or.inr (by simp; omega)),
        read_write_disjoint (Or.inr (by simp)),
        read_write_of_length (length_encode 4 1), oneBack]
      decide

/-- What publishing a chunk does to the shape of the ring. -/
structure Extends (shape : Shape) (chunk : List UInt8) (result : Shape) : Prop where
  unread : result.unread = shape.unread ++ [chunk]
  first : ∀ held, shape.first = some held → result.first = some held
  wrapped :
    ∀ front back gap,
      shape = .wrapped front back gap →
      ∃ longer, result = .wrapped front longer gap

/-- The new head stands behind the element, around the ring. -/
theorem advancedHead_eq
    {ringbuf : Ringbuf}
    {written element : Nat}
    (sound : Sound ringbuf)
    (place : Place ringbuf element) :
    advancedHead ringbuf ringbuf.head written =
      (element + (8 + ringbufPad written)) % ringbuf.size := by
  have small := sound.size_le
  have headInside := sound.headInside
  have padSmall := ringbufPad_le written
  have narrow : 2 * (8 + 0xFFFFFFF8) < words := by decide
  rcases place with ⟨gap, rfl⟩ | ⟨gap, rfl⟩
  · have gapSum : add ringbuf.gapd 8 = 8 := by
      rw [gap]
      decide
    rw [advancedHead, gapSum, add_of_lt (show 8 + ringbufPad written < words by omega),
      add_of_lt (by omega), sound.and_mask]
  · have gapSum : add ringbuf.gapd 8 = ringbuf.size - ringbuf.head + 8 := by
      rw [gap, add_of_lt (by omega)]
    have total : ringbuf.head + (ringbuf.size - ringbuf.head + 8 + ringbufPad written) =
        8 + ringbufPad written + ringbuf.size := by
      omega
    rw [advancedHead, gapSum, add_of_lt (b := ringbufPad written) (by omega),
      add_of_lt (by omega), total, sound.and_mask, Nat.add_mod_right, Nat.zero_add]

/-- Publishing the head appends the completed chunk to the unread ones. -/
theorem Fits.publish
    {ringbuf : Ringbuf}
    {shape : Shape}
    {element : Nat}
    {chunk : List UInt8}
    (sound : Sound ringbuf)
    (fits : Fits ringbuf shape)
    (room : Room ringbuf chunk.length element)
    (completing : Completing ringbuf element chunk []) :
    ∃ result,
      Extends shape chunk result ∧
        Sound
          { ringbuf with head := advancedHead ringbuf ringbuf.head chunk.length } ∧
        Fits
          { ringbuf with head := advancedHead ringbuf ringbuf.head chunk.length } result := by
  obtain ⟨chunkAt, gapMarked, _⟩ := completing
  simp only [applyStores] at chunkAt gapMarked
  obtain ⟨atLeast, spanAligned⟩ := chunkAt.inside
  have span : 8 + ringbufPad chunk.length = chunkSpan chunk := rfl
  rw [advancedHead_eq sound room.place, span]
  have headInside := sound.headInside
  have tailInside := sound.tailInside
  have soundAt : ∀ head, 8 ∣ head → head < ringbuf.size → Sound { ringbuf with head := head } :=
    fun head aligned inside =>
      { sound with headAligned := aligned, headInside := inside }
  rcases room with ⟨_, rfl, roomEnd, roomTail, roomStart⟩ | ⟨gap, rfl, behind, roomTail⟩
  · have headAligned := sound.headAligned
    by_cases last : ringbuf.head + chunkSpan chunk = ringbuf.size
    · -- The chunk ends with the ring, so the head goes to the start without a gap.
      rw [last, Nat.mod_self]
      cases shape with
      | straight chunks =>
          obtain ⟨ordered, segment⟩ := fits
          refine ⟨.wrapped (chunks ++ [chunk]) [] ringbuf.size, ⟨?_, ?_, by simp⟩,
            soundAt 0 (Nat.dvd_zero 8) (by omega), ?_, Or.inr rfl, ?_, rfl⟩
          · simp [Shape.unread]
          · intro held first
            simp only [Shape.first] at first ⊢
            rw [List.head?_append, first, Option.some_or]
          · simp only
            omega
          · rw [← last]
            exact segment.concat chunkAt
      | wrapped front back gap =>
          have below := roomTail fits.1
          omega
    · rw [Nat.mod_eq_of_lt (by omega)]
      have newSound := soundAt (ringbuf.head + chunkSpan chunk) (by omega) (by omega)
      cases shape with
      | straight chunks =>
          obtain ⟨ordered, segment⟩ := fits
          refine ⟨.straight (chunks ++ [chunk]), ⟨rfl, ?_, by simp⟩, newSound, ?_, ?_⟩
          · intro held first
            simp only [Shape.first] at first ⊢
            rw [List.head?_append, first, Option.some_or]
          · simp only
            omega
          · exact segment.concat chunkAt
      | wrapped front back gap =>
          obtain ⟨ordered, ends, frontSegment, backSegment⟩ := fits
          have below := roomTail ordered
          have stillEnds : FrontEnds ringbuf (back ++ [chunk]) gap := by
            rcases ends with ⟨inside, marked, _⟩ | atEnd
            · exact Or.inl ⟨inside, marked, by simp⟩
            · exact Or.inr atEnd
          refine ⟨.wrapped front (back ++ [chunk]) gap, ⟨?_, fun _ first => first, ?_⟩,
            newSound, ?_, stillEnds, frontSegment, backSegment.concat chunkAt⟩
          · simp [Shape.unread]
          · rintro _ _ _ ⟨rfl, rfl, rfl⟩
            exact ⟨back ++ [chunk], rfl⟩
          · simp only
            omega
  · rw [Nat.mod_eq_of_lt (by omega), Nat.zero_add]
    cases shape with
    | straight chunks =>
        obtain ⟨ordered, segment⟩ := fits
        refine ⟨.wrapped chunks [chunk] ringbuf.head, ⟨rfl, fun _ first => first, by simp⟩,
          soundAt _ (by omega) (by omega), ?_,
          Or.inl ⟨headInside, gapMarked (by omega), by simp⟩, segment, chunkAt,
          Nat.zero_add _⟩
        simp only
        omega
    | wrapped front back gap =>
        have ordered := fits.1
        omega

/-! ## The consumer -/

/-- What holds of the consumer in each of its states, given the size and the current tail. -/
def ConsumerOk (size current : Nat) (shape : Shape) : Consumer → Prop
  | .idle => True
  | .loadedTail tail => tail = current
  | .testing tail => tail = current ∧ ∃ front back gap, shape = .wrapped front back gap
  | .skipping tail => tail = current ∧ ∃ back gap, shape = .wrapped [] back gap
  | .sizing element => element = current ∧ ∃ chunk, shape.first = some chunk
  | .holding pointer toread bytes =>
      pointer = current + 8 ∧
        ∃ chunk, shape.first = some chunk ∧ toread = chunk.length ∧ bytes <+: chunk
  | .advancing => ∃ chunk, shape.first = some chunk
  | .measuring tail => tail = current ∧ ∃ chunk, shape.first = some chunk
  | .releasing tail =>
      ∃ chunk, shape.first = some chunk ∧ tail = (current + chunkSpan chunk) % size

/-- The consumer has read the chunk at the tail and not yet released it. -/
def Consumer.counted : Consumer → Bool
  | .advancing | .measuring _ | .releasing _ => true
  | _ => false

/-- A consumer that still has to release a chunk leaves an unread one. -/
theorem ConsumerOk.occupied
    {size current : Nat}
    {shape : Shape}
    {consumer : Consumer}
    (ok : ConsumerOk size current shape consumer)
    (counted : consumer.counted = true) :
    shape.unread ≠ [] := by
  have held : ∃ chunk, shape.first = some chunk := by
    cases consumer with
    | advancing => exact ok
    | measuring tail => exact ok.2
    | releasing tail =>
        obtain ⟨chunk, first, _⟩ := ok
        exact ⟨chunk, first⟩
    | _ => simp [Consumer.counted] at counted
  obtain ⟨chunk, first⟩ := held
  intro empty
  cases shape with
  | straight chunks =>
      simp only [Shape.unread] at empty
      simp [Shape.first, empty] at first
  | wrapped front back gap =>
      simp only [Shape.unread, List.append_eq_nil_iff] at empty
      simp [Shape.first, empty.1] at first

/-- A chunk published by the producer does not disturb the consumer. -/
theorem ConsumerOk.publish
    {size current : Nat}
    {shape result : Shape}
    {consumer : Consumer}
    {chunk : List UInt8}
    (ok : ConsumerOk size current shape consumer)
    (longer : Extends shape chunk result) :
    ConsumerOk size current result consumer := by
  cases consumer with
  | idle =>
      trivial
  | loadedTail tail =>
      exact ok
  | testing tail =>
      obtain ⟨atTail, front, back, gap, wrapped⟩ := ok
      obtain ⟨more, stillWrapped⟩ := longer.wrapped front back gap wrapped
      exact ⟨atTail, front, more, gap, stillWrapped⟩
  | skipping tail =>
      obtain ⟨atTail, back, gap, wrapped⟩ := ok
      obtain ⟨more, stillWrapped⟩ := longer.wrapped [] back gap wrapped
      exact ⟨atTail, more, gap, stillWrapped⟩
  | sizing element =>
      obtain ⟨atTail, held, first⟩ := ok
      exact ⟨atTail, held, longer.first held first⟩
  | holding pointer toread bytes =>
      obtain ⟨atTail, held, first, length, read⟩ := ok
      exact ⟨atTail, held, longer.first held first, length, read⟩
  | advancing =>
      obtain ⟨held, first⟩ := ok
      exact ⟨held, longer.first held first⟩
  | measuring tail =>
      obtain ⟨atTail, held, first⟩ := ok
      exact ⟨atTail, held, longer.first held first⟩
  | releasing tail =>
      obtain ⟨held, first, target⟩ := ok
      exact ⟨held, longer.first held first, target⟩

/-- The first unread chunk is stored at the tail, and dropping it keeps the shape. -/
theorem Fits.first
    {ringbuf : Ringbuf}
    {shape : Shape}
    {chunk : List UInt8}
    (sound : Sound ringbuf)
    (fits : Fits ringbuf shape)
    (first : shape.first = some chunk) :
    ChunkAt ringbuf.buf ringbuf.tail chunk ∧
      ringbuf.tail + chunkSpan chunk ≤ ringbuf.size ∧
      ∃ result,
        shape.unread = chunk :: result.unread ∧
          Releases ringbuf ((ringbuf.tail + chunkSpan chunk) % ringbuf.size) ∧
          Fits
            { ringbuf with tail := (ringbuf.tail + chunkSpan chunk) % ringbuf.size }
            result := by
  have headInside := sound.headInside
  cases shape with
  | straight chunks =>
      obtain ⟨ordered, segment⟩ := fits
      obtain ⟨rest, rfl⟩ := List.head?_eq_some_iff.mp first
      have below := segment.first_le
      rw [Nat.mod_eq_of_lt (by omega)]
      exact ⟨segment.1, by omega, .straight rest, rfl, Or.inl ⟨by omega, Or.inr below⟩, below,
        segment.2⟩
  | wrapped front back gap =>
      obtain ⟨ordered, ends, frontSegment, backSegment⟩ := fits
      obtain ⟨rest, rfl⟩ := List.head?_eq_some_iff.mp first
      have below := frontSegment.first_le
      have upTo : gap ≤ ringbuf.size := by
        unfold FrontEnds at ends
        omega
      refine ⟨frontSegment.1, by omega, ?_⟩
      by_cases last : ringbuf.tail + chunkSpan chunk = ringbuf.size
      · -- Without a gap the tail follows the head to the start of the ring.
        have alone : rest = [] := by
          cases rest with
          | nil =>
              rfl
          | cons second others =>
              have further := frontSegment.2.first_le
              have atLeast := frontSegment.2.1.inside.1
              omega
        rw [last, Nat.mod_self]
        exact ⟨.straight back, by simp [Shape.unread, alone], Or.inr ⟨ordered, rfl⟩,
          Nat.zero_le _, backSegment⟩
      · rw [Nat.mod_eq_of_lt (by omega)]
        refine ⟨.wrapped rest back gap, rfl, Or.inl ⟨by omega, Or.inl ordered⟩, ?_, ends,
          frontSegment.2, backSegment⟩
        simp only
        omega

/-- What the consumer finds when it loads the head. -/
theorem afterLoadingHead_ok
    {ringbuf : Ringbuf}
    {shape : Shape}
    (sound : Sound ringbuf)
    (fits : Fits ringbuf shape) :
    ConsumerOk ringbuf.size ringbuf.tail shape
        (afterLoadingHead ringbuf ringbuf.head ringbuf.tail) ∧
      (afterLoadingHead ringbuf ringbuf.head ringbuf.tail).counted = false := by
  have small := sound.size_le
  have headInside := sound.headInside
  have tailInside := sound.tailInside
  have space := readableSpace_eq sound
  cases shape with
  | straight chunks =>
      obtain ⟨ordered, segment⟩ := fits
      rw [if_neg (Nat.not_lt.mpr ordered)] at space
      cases chunks with
      | nil =>
          obtain same : ringbuf.tail = ringbuf.head := segment
          have empty : ¬ ringbuf.head - ringbuf.tail > 0 := by omega
          simp only [afterLoadingHead, space, if_neg empty]
          exact ⟨trivial, rfl⟩
      | cons chunk rest =>
          have below := segment.first_le
          have atLeast := segment.1.inside.1
          have occupied : ringbuf.head - ringbuf.tail > 0 := by omega
          have stop : add ringbuf.tail (ringbuf.head - ringbuf.tail) = ringbuf.head := by
            rw [add_of_lt (by omega)]
            omega
          simp only [afterLoadingHead, space, if_pos occupied, stop,
            if_neg (Nat.lt_asymm headInside)]
          exact ⟨⟨rfl, chunk, rfl⟩, rfl⟩
  | wrapped front back gap =>
      obtain ⟨ordered, ends, frontSegment, backSegment⟩ := fits
      rw [if_pos ordered] at space
      have available : ringbuf.head + ringbuf.size - ringbuf.tail > 0 := by omega
      have stop : add ringbuf.tail (ringbuf.head + ringbuf.size - ringbuf.tail) =
          ringbuf.head + ringbuf.size := by
        rw [add_of_lt (by omega)]
        omega
      simp only [afterLoadingHead, space, if_pos available, stop]
      split
      · exact ⟨⟨rfl, front, back, gap, rfl⟩, rfl⟩
      · -- The head is at the start, so there is no gap and the first piece is occupied.
        rename_i contiguous
        have start : ringbuf.head = 0 := by omega
        refine ⟨⟨rfl, ?_⟩, rfl⟩
        cases front with
        | cons chunk rest =>
            exact ⟨chunk, rfl⟩
        | nil =>
            obtain same : ringbuf.tail = gap := frontSegment
            rcases ends with ⟨_, _, occupied⟩ | atEnd
            · cases back with
              | nil => exact (occupied rfl).elim
              | cons chunk rest =>
                  have below := backSegment.first_le
                  have atLeast := backSegment.1.inside.1
                  omega
            · omega

/-! ## Runs -/

/-- The invariant of the two threads. -/
structure Delivers (system : System) (shape : Shape) : Prop where
  sound : Sound system.ringbuf
  fits : Fits system.ringbuf shape
  producer : ProducerOk system.ringbuf system.producer
  consumer : ConsumerOk system.ringbuf.size system.ringbuf.tail shape system.consumer
  order :
    system.advanced =
      system.consumed ++ (if system.consumer.counted then shape.unread.tail else shape.unread)

/-- A store to unused cells keeps the unread chunks. -/
theorem Fits.write
    {ringbuf : Ringbuf}
    {shape : Shape}
    {address : Nat}
    {bytes : List UInt8}
    (fits : Fits ringbuf shape)
    (unused :
      ∀ cell, address ≤ cell → cell < address + bytes.length → ¬ Used ringbuf cell) :
    Fits { ringbuf with buf := write ringbuf.buf address bytes } shape := by
  apply fits.congr
  intro cell used
  apply write_outside
  by_contra inside
  exact unused cell (by omega) (by omega) used

/-- Every step of the producer keeps the chunks in order. -/
theorem producer_delivers
    {before after : System}
    {shape : Shape}
    (delivers : Delivers before shape)
    (step : ProducerStep before after) :
    ∃ result, Delivers after result := by
  obtain ⟨sound, fits, producer, consumer, order⟩ := delivers
  cases step with
  | loadHead free word =>
      exact ⟨shape, sound, fits, ⟨rfl, word⟩, consumer, order⟩
  | @loadTail minimum head here =>
      rw [here] at producer
      obtain ⟨rfl, word⟩ := producer
      obtain ⟨rsvd, gapd, result, requested, granted⟩ := writeRequest_room sound word
      simp only [requested]
      refine ⟨shape, { sound with }, by cases shape <;> exact fits, ?_, consumer, order⟩
      cases result with
      | none =>
          trivial
      | some pointer =>
          obtain ⟨reserved, enough, element, place, room⟩ := granted pointer rfl
          exact ⟨word, reserved, element, place, (room minimum).mpr enough⟩
  | @fill minimum pointer index here inside byte =>
      rw [here] at producer
      obtain ⟨word, asserted, element, rfl, room⟩ := producer
      have atLeast := (ringbufPad_spec word).1
      refine ⟨shape, { sound with }, fits.write ?_, ?_, consumer, order⟩
      · intro cell above below
        simp only [List.length_cons, List.length_nil] at below
        exact room.unused (Or.inl ⟨by omega, by omega⟩)
      · simp only [here]
        exact ⟨word, asserted, element, rfl, room⟩
  | @advance minimum pointer written here requested asserted =>
      rw [here] at producer
      obtain ⟨word, _, element, rfl, room⟩ := producer
      have smaller := room.mono requested word
      refine ⟨shape, sound, fits, ⟨rfl, length_read, element, smaller, ?_⟩, consumer, order⟩
      exact completing_headerStores sound (by omega) smaller
  | @store head written address chunk bytes stores here =>
      rw [here] at producer
      obtain ⟨atHead, length, element, room, completing⟩ := producer
      refine ⟨shape, { sound with }, fits.write ?_,
        ⟨atHead, length, element, room, completing.chunkAt, completing.gapMarked, ?_⟩,
        consumer, order⟩
      · intro cell above below
        exact completing.unused (address, bytes) List.mem_cons_self cell above below
      · intro store member cell above below
        exact completing.unused store (List.mem_cons_of_mem _ member) cell above below
  | @publish head written chunk here =>
      rw [here] at producer
      obtain ⟨rfl, rfl, element, room, completing⟩ := producer
      obtain ⟨result, longer, newSound, newFits⟩ := fits.publish sound room completing
      refine ⟨result, newSound, newFits, trivial, consumer.publish longer, ?_⟩
      simp only
      rw [order, longer.unread, List.append_assoc]
      congr 1
      split
      · rename_i counted
        rw [List.tail_append_of_ne_nil (consumer.occupied counted)]
      · rfl

/-- The tail stays sound when it moves to an aligned place inside. -/
private theorem Sound.withTail
    {ringbuf : Ringbuf}
    {tail : Nat}
    (sound : Sound ringbuf)
    (aligned : 8 ∣ tail)
    (inside : tail < ringbuf.size) :
    Sound { ringbuf with tail := tail } :=
  { sound with tailAligned := aligned, tailInside := inside }

/-- One more byte of the same list. -/
private theorem prefix_concat
    {bytes chunk : List UInt8}
    {byte : UInt8}
    (partly : bytes <+: chunk)
    (next : chunk[bytes.length]? = some byte) :
    bytes ++ [byte] <+: chunk := by
  obtain ⟨rest, rfl⟩ := partly
  rw [List.getElem?_append_right (Nat.le_refl _), Nat.sub_self] at next
  cases rest with
  | nil =>
      simp at next
  | cons head tail =>
      obtain rfl : head = byte := by simpa using next
      exact ⟨tail, by simp⟩

/-- A gap at the tail is the end of the chunks in front of it. -/
private theorem Delivers.testsGap
    {before : System}
    {shape : Shape}
    {tail : Nat}
    (delivers : Delivers before shape)
    (here : before.consumer = .testing tail) :
    ∃ result,
      Delivers
        { before with
          consumer :=
            if elementGap before.ringbuf.buf tail ≠ 0 then .skipping tail else .sizing tail }
        result := by
  obtain ⟨sound, fits, producer, consumer, order⟩ := delivers
  rw [here] at consumer order
  obtain ⟨rfl, front, back, gap, rfl⟩ := consumer
  have frontSegment := fits.2.2.1
  cases front with
  | nil =>
      obtain rfl : before.ringbuf.tail = gap := frontSegment
      have marked := (FrontEnds.gap fits.2.1 sound.tailInside).1
      refine ⟨_, sound, fits, producer, ?_, ?_⟩
      · simp only [if_pos marked]
        exact ⟨rfl, back, _, rfl⟩
      · simp only [if_pos marked]
        exact order
  | cons chunk rest =>
      have unmarked : ¬ elementGap before.ringbuf.buf before.ringbuf.tail ≠ 0 :=
        not_not.mpr frontSegment.1.noGap
      refine ⟨_, sound, fits, producer, ?_, ?_⟩
      · simp only [if_neg unmarked]
        exact ⟨rfl, chunk, rfl⟩
      · simp only [if_neg unmarked]
        exact order

/-- Skipping a gap moves the tail to the start of the ring, where the next chunk lies. -/
private theorem Delivers.skipsGap
    {before : System}
    {shape : Shape}
    {tail : Nat}
    (delivers : Delivers before shape)
    (here : before.consumer = .skipping tail) :
    ∃ result,
      Delivers
        { before with
          ringbuf :=
            { before.ringbuf with
              tail := add tail (sub before.ringbuf.size tail) &&& before.ringbuf.mask }
          consumer := .sizing 0 }
        result := by
  obtain ⟨sound, fits, producer, consumer, order⟩ := delivers
  have small := sound.size_le
  have tailInside := sound.tailInside
  rw [here] at consumer order
  obtain ⟨rfl, back, gap, rfl⟩ := consumer
  obtain ⟨ordered, ends, frontSegment, backSegment⟩ := fits
  have wrapped : add before.ringbuf.tail (sub before.ringbuf.size before.ringbuf.tail) &&&
      before.ringbuf.mask = 0 := by
    rw [sub_of_le (by omega) (by omega), add_of_lt (by omega), sound.and_mask,
      Nat.add_sub_cancel' (by omega), Nat.mod_self]
  have releases : Releases before.ringbuf 0 := Or.inr ⟨ordered, rfl⟩
  simp only [wrapped]
  refine ⟨.straight back, sound.withTail (Nat.dvd_zero 8) (by omega),
    ⟨Nat.zero_le _, backSegment⟩, producer.release sound releases, ⟨rfl, ?_⟩, order⟩
  obtain rfl : before.ringbuf.tail = gap := frontSegment
  cases back with
  | nil => exact ((ends.gap tailInside).2 rfl).elim
  | cons chunk rest => exact ⟨chunk, rfl⟩

/-- The header of the chunk at the tail gives the place behind it. -/
private theorem Delivers.measures
    {before : System}
    {shape : Shape}
    {tail : Nat}
    (delivers : Delivers before shape)
    (here : before.consumer = .measuring tail) :
    Delivers
      { before with
        consumer :=
          .releasing
            (add tail (add 8 (ringbufPad (elementSize before.ringbuf.buf tail))) &&&
              before.ringbuf.mask) }
      shape := by
  obtain ⟨sound, fits, producer, consumer, order⟩ := delivers
  have small := sound.size_le
  have tailInside := sound.tailInside
  rw [here] at consumer order
  obtain ⟨rfl, chunk, first⟩ := consumer
  obtain ⟨stored, below, _⟩ := fits.first sound first
  have span : 8 + ringbufPad chunk.length = chunkSpan chunk := rfl
  refine ⟨sound, fits, producer, ⟨chunk, first, ?_⟩, order⟩
  rw [stored.size, add_of_lt (show 8 + ringbufPad chunk.length < words by omega), span,
    add_of_lt (by omega), sound.and_mask]

/-- Storing the tail gives the chunk's cells back. -/
private theorem Delivers.releases
    {before : System}
    {shape : Shape}
    {tail : Nat}
    (delivers : Delivers before shape)
    (here : before.consumer = .releasing tail) :
    ∃ result,
      Delivers
        { before with
          ringbuf := { before.ringbuf with tail := tail }
          consumer := .idle }
        result := by
  obtain ⟨sound, fits, producer, consumer, order⟩ := delivers
  rw [here] at consumer order
  obtain ⟨chunk, first, rfl⟩ := consumer
  obtain ⟨stored, below, result, unread, releases, released⟩ := fits.first sound first
  have aligned : 8 ∣ (before.ringbuf.tail + chunkSpan chunk) % before.ringbuf.size := by
    rcases Nat.lt_or_eq_of_le below with less | same
    · rw [Nat.mod_eq_of_lt less]
      exact Nat.dvd_add sound.tailAligned stored.inside.2
    · rw [same, Nat.mod_self]
      exact Nat.dvd_zero 8
  have inside : (before.ringbuf.tail + chunkSpan chunk) % before.ringbuf.size <
      before.ringbuf.size :=
    Nat.mod_lt _ (Nat.zero_lt_of_lt sound.tailInside)
  refine ⟨result, sound.withTail aligned inside, released,
    producer.release sound releases, trivial, ?_⟩
  rw [order, unread]
  rfl

/-- Every step of the consumer keeps the chunks in order. -/
theorem consumer_delivers
    {before after : System}
    {shape : Shape}
    (delivers : Delivers before shape)
    (step : ConsumerStep before after) :
    ∃ result, Delivers after result := by
  have held := delivers
  obtain ⟨sound, fits, producer, consumer, order⟩ := delivers
  cases step with
  | loadTail here =>
      rw [here] at order
      exact ⟨shape, sound, fits, producer, rfl, order⟩
  | @loadHead tail here =>
      rw [here] at consumer order
      obtain rfl : tail = before.ringbuf.tail := consumer
      obtain ⟨ok, uncounted⟩ := afterLoadingHead_ok sound fits
      refine ⟨shape, sound, fits, producer, ok, ?_⟩
      simp only [uncounted]
      exact order
  | testGap here => exact held.testsGap here
  | skipGap here => exact held.skipsGap here
  | @readSize element here =>
      rw [here] at consumer order
      obtain ⟨rfl, chunk, first⟩ := consumer
      have stored := (fits.first sound first).1
      exact ⟨shape, sound, fits, producer,
        ⟨rfl, chunk, first, stored.size, List.nil_prefix⟩, order⟩
  | @readByte pointer toread bytes here more =>
      rw [here] at consumer order
      obtain ⟨rfl, chunk, first, rfl, partly⟩ := consumer
      have stored := (fits.first sound first).1.bytes
      refine ⟨shape, sound, fits, producer, ⟨rfl, chunk, first, rfl, ?_⟩, order⟩
      have byte := @getElem?_read before.ringbuf.buf (before.ringbuf.tail + 8) _ _ more
      rw [stored] at byte
      exact prefix_concat partly byte
  | @finish pointer toread bytes here complete =>
      rw [here] at consumer order
      obtain ⟨rfl, chunk, first, rfl, whole⟩ := consumer
      obtain rfl : bytes = chunk := whole.eq_of_length complete
      obtain ⟨_, _, result, unread, _⟩ := fits.first sound first
      refine ⟨shape, sound, fits, producer, ⟨bytes, first⟩, ?_⟩
      simp only [Consumer.counted, if_true]
      rw [order, unread]
      simp [Consumer.counted]
  | reloadTail here =>
      rw [here] at consumer order
      exact ⟨shape, sound, fits, producer, ⟨rfl, consumer⟩, order⟩
  | rereadSize here => exact ⟨shape, held.measures here⟩
  | storeTail here => exact held.releases here

/-- A fresh ring holds no chunk. -/
theorem delivers_initial
    {memory : Ringbuf}
    {exponent : Nat}
    (small : exponent < 64) :
    Delivers (System.initial (ringbufInit memory (2 ^ exponent))) (.straight []) := by
  have positive : 0 < 2 ^ exponent := Nat.two_pow_pos exponent
  refine ⟨⟨⟨exponent, small, rfl⟩, ?_, Nat.dvd_zero 8, Nat.dvd_zero 8, positive, positive⟩,
    ⟨Nat.le_refl 0, rfl⟩, trivial, trivial, rfl⟩
  exact sub_of_le (Nat.pow_lt_pow_right (by decide) small) positive

/-- Every state the two threads reach keeps the chunks in order. -/
theorem delivers_reachable
    {memory : Ringbuf}
    {exponent : Nat}
    {system : System}
    (small : exponent < 64)
    (reachable :
      Reachable Step (System.initial (ringbufInit memory (2 ^ exponent))) system) :
    ∃ shape, Delivers system shape := by
  have initially :
      ∃ shape, Delivers (System.initial (ringbufInit memory (2 ^ exponent))) shape :=
    ⟨_, delivers_initial small⟩
  apply reachable.invariant initially
  rintro before label after ⟨shape, delivers⟩ step
  cases step with
  | producer step => exact producer_delivers delivers step
  | consumer step => exact consumer_delivers delivers step

/--
In every interleaving the chunks the consumer has read are the first of those the
producer has advanced.  While the consumer holds a pointer, the bytes behind it are
those of the next chunk in that order.
-/
theorem chunks_delivered_in_order
    {memory : Ringbuf}
    {exponent : Nat}
    {system : System}
    (small : exponent < 64)
    (reachable :
      Reachable Step (System.initial (ringbufInit memory (2 ^ exponent))) system) :
    system.consumed <+: system.advanced ∧
      ∀ pointer toread bytes,
        system.consumer = .holding pointer toread bytes →
        ∃ chunk rest,
          system.advanced = system.consumed ++ chunk :: rest ∧
            toread = chunk.length ∧
            read system.ringbuf.buf pointer toread = chunk := by
  obtain ⟨shape, delivers⟩ := delivers_reachable small reachable
  obtain ⟨sound, fits, producer, consumer, order⟩ := delivers
  refine ⟨⟨_, order.symm⟩, ?_⟩
  intro pointer toread bytes here
  rw [here] at consumer order
  obtain ⟨rfl, chunk, first, rfl, _⟩ := consumer
  obtain ⟨stored, _, result, unread, _⟩ := fits.first sound first
  refine ⟨chunk, result.unread, ?_, rfl, stored.bytes⟩
  rw [order, unread]
  rfl

/-- A ring of 64 bytes whose other fields and bytes are zero. -/
def smallRing : Ringbuf :=
  ringbufInit
    { size := 0, mask := 0, rsvd := 0, gapd := 0, head := 0, tail := 0, buf := fun _ => 0 }
    (2 ^ 6)

/-- The producer advances a chunk of one byte and the consumer holds it. -/
theorem smallRing_held :
    ∃ system,
      Reachable Step (System.initial smallRing) system ∧
        system.advanced = [[7]] ∧ system.consumer = .holding 8 1 [] := by
  have start : Reachable Step (System.initial smallRing) (System.initial smallRing) := .refl
  have requested := start.next
    (.producer (@ProducerStep.loadHead _ 1 (Or.inl rfl) (by decide)))
  have reserved := requested.next (.producer (.loadTail rfl))
  have filled := reserved.next
    (.producer (@ProducerStep.fill _ _ _ 0 rfl (by decide) 7))
  have advancing := filled.next
    (.producer (@ProducerStep.advance _ _ _ 1 rfl (by decide) (by decide)))
  have sized := advancing.next (.producer (.store rfl))
  have marked := sized.next (.producer (.store rfl))
  have published := marked.next (.producer (.publish rfl))
  have loaded := published.next (.consumer (.loadTail rfl))
  have found := loaded.next (.consumer (.loadHead rfl))
  have held := found.next (.consumer (.readSize rfl))
  exact ⟨_, held, rfl, rfl⟩

/-- The guarantees while the consumer holds the chunk. -/
theorem smallRing_delivered :
    ∃ system : System,
      system.advanced = [[7]] ∧
        system.consumer = .holding 8 1 [] ∧
        system.consumed <+: system.advanced ∧
        ∀ pointer toread bytes,
          system.consumer = .holding pointer toread bytes →
          ∃ chunk rest,
            system.advanced = system.consumed ++ chunk :: rest ∧
              toread = chunk.length ∧
              read system.ringbuf.buf pointer toread = chunk := by
  obtain ⟨system, reachable, advanced, held⟩ := smallRing_held
  exact ⟨system, advanced, held, chunks_delivered_in_order (by decide) reachable⟩

end Sysprog.ChunkRing
