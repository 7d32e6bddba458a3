import Sysprog.RingbufHistory
import Sysprog.RingbufOrders

namespace Sysprog.ChunkRing

open ByteMemory Execution MachineWord ReleaseAcquire

/-!
# Release and acquire keep the ring free of races

Each thread works with the index of the other one that it loaded last, which may be old.
The producer then takes released bytes for unread ones, and the consumer misses chunks.
Neither does harm: indices only move forward, so what is free in an old view is free, and
what is unread in an old view is unread.  The accesses of one thread to a byte are ordered
with those of the other, because a byte passes from one thread to the other only through
an index that is stored with release and loaded with acquire.
-/

/-! ## Going round the ring -/

/-- Going forward from `first`, one meets `middle` before leaving `last` behind. -/
def Between (first middle last : Nat) : Prop :=
  (first ≤ middle ∧ middle ≤ last) ∨ (last < first ∧ (first ≤ middle ∨ middle ≤ last))

namespace Between

variable {first middle last further : Nat}

theorem left (first last : Nat) : Between first first last := by
  unfold Between
  omega

theorem right (first last : Nat) : Between first last last := by
  unfold Between
  omega

/-- What one meets on a part of the way one meets on the way. -/
theorem extend
    (within : Between first middle last)
    (onward : Between first last further) :
    Between first middle further := by
  unfold Between at within onward ⊢
  omega

/-- Starting later, one still passes what lies ahead. -/
theorem later
    (within : Between first middle last)
    (onward : Between first last further) :
    Between middle last further := by
  unfold Between at within onward ⊢
  omega

/-- Starting earlier, one meets the same. -/
theorem earlier
    (start : Between first middle further)
    (within : Between middle last further) :
    Between first last further := by
  unfold Between at start within ⊢
  omega

end Between

/-- The ring as a thread sees it that takes the two indices for these. -/
def Ringbuf.withIndices (ringbuf : Ringbuf) (head tail : Nat) : Ringbuf :=
  { ringbuf with head := head, tail := tail }

section Views

variable
  {ringbuf : Ringbuf}
  {head ahead tail behind cell amount element : Nat}

/-- The bytes between two indices. -/
theorem used_withIndices :
    Used (ringbuf.withIndices head tail) cell ↔
      (head < tail ∧ (cell < head ∨ tail ≤ cell)) ∨ (tail ≤ cell ∧ cell < head) := by
  have used : Used (ringbuf.withIndices head tail) cell =
      if head < tail then cell < head ∨ tail ≤ cell else tail ≤ cell ∧ cell < head := rfl
  rw [used]
  by_cases wrapped : head < tail
  · rw [if_pos wrapped]
    omega
  · rw [if_neg wrapped]
    omega

/-- A tail that is known later leaves fewer bytes unread. -/
theorem used_of_later_tail
    (within : Between tail behind head)
    (used : Used (ringbuf.withIndices head behind) cell) :
    Used (ringbuf.withIndices head tail) cell := by
  rw [used_withIndices] at used ⊢
  unfold Between at within
  omega

/-- A head that is known later shows more unread bytes. -/
theorem used_of_earlier_head
    (within : Between tail head ahead)
    (used : Used (ringbuf.withIndices head tail) cell) :
    Used (ringbuf.withIndices ahead tail) cell := by
  rw [used_withIndices] at used ⊢
  unfold Between at within
  omega

/-- Room beside an old tail is room beside a later one. -/
theorem Room.later_tail
    (sound : Sound (ringbuf.withIndices head tail))
    (room : Room (ringbuf.withIndices head tail) amount element)
    (within : Between tail behind head) :
    Room (ringbuf.withIndices head behind) amount element := by
  have tailInside := sound.tailInside
  unfold Between at within
  simp only [Room, Ringbuf.withIndices] at room tailInside ⊢
  omega

/-- A head that moves into its room stays ahead of what it was ahead of. -/
theorem Between.publish
    (sound : Sound (ringbuf.withIndices head tail))
    (room : Room (ringbuf.withIndices head tail) amount element)
    (within : Between tail cell head) :
    Between tail cell (advancedHead ringbuf head amount) := by
  have advanced : advancedHead ringbuf head amount =
      (element + (8 + ringbufPad amount)) % ringbuf.size :=
    advancedHead_eq sound room.place
  have headInside := sound.headInside
  have tailInside := sound.tailInside
  rw [advanced]
  unfold Between at within ⊢
  simp only [Room, Ringbuf.withIndices] at room headInside tailInside
  rcases Nat.lt_or_ge (element + (8 + ringbufPad amount)) ringbuf.size with less | more
  · rw [Nat.mod_eq_of_lt less]
    omega
  · -- The chunk ends with the ring, so the head goes to the start.
    have last : element + (8 + ringbufPad amount) = ringbuf.size := by omega
    rw [last, Nat.mod_self]
    omega

/-- The consumer moves the tail towards the head. -/
theorem Releases.between
    (releases : Releases (ringbuf.withIndices head tail) behind) :
    Between tail behind head := by
  simp only [Releases, Ringbuf.withIndices] at releases
  unfold Between
  omega

end Views

/-! ## The indices -/

/--
What holds of the indices: every pair of an old head and an old tail is sound, the heads the
consumer may still load lie ahead of each other, seen from the tail, and the tails the
producer may still load lie behind each other, seen from the head.
-/
structure Indices (ringbuf : Ringbuf) (heads tails : Atomic Nat) : Prop where
  head : heads.latest = ringbuf.head
  tail : tails.latest = ringbuf.tail
  headKnown : heads.known = heads.loaded
  tailKnown : tails.known = tails.loaded
  sound :
    ∀ head ∈ heads.stores, ∀ tail ∈ tails.stores, Sound (ringbuf.withIndices head tail)
  ahead :
    ∀ {first second head later},
      heads.loaded ≤ first →
      first ≤ second →
      heads.stores[first]? = some head →
      heads.stores[second]? = some later →
      Between ringbuf.tail head later
  behind :
    ∀ {first second tail later},
      tails.loaded ≤ first →
      first ≤ second →
      tails.stores[first]? = some tail →
      tails.stores[second]? = some later →
      Between tail later ringbuf.head

namespace Indices

variable
  {ringbuf other : Ringbuf}
  {heads tails : Atomic Nat}
  {index head tail amount element next : Nat}

/-- The latest head is one of the heads. -/
theorem stores_head (indices : Indices ringbuf heads tails) :
    heads.stores[heads.epoch]? = some ringbuf.head := by
  rw [← indices.head]
  exact Atomic.stores_epoch

/-- The latest tail is one of the tails. -/
theorem stores_tail (indices : Indices ringbuf heads tails) :
    tails.stores[tails.epoch]? = some ringbuf.tail := by
  rw [← indices.tail]
  exact Atomic.stores_epoch

/-- The ring is sound for any pair of numbered indices. -/
theorem sound_at
    (indices : Indices ringbuf heads tails)
    {second : Nat}
    (headStored : heads.stores[index]? = some head)
    (tailStored : tails.stores[second]? = some tail) :
    Sound (ringbuf.withIndices head tail) :=
  indices.sound head (List.mem_of_getElem? headStored) tail (List.mem_of_getElem? tailStored)

/-- The ring is sound. -/
theorem sound_latest (indices : Indices ringbuf heads tails) : Sound ringbuf :=
  indices.sound_at indices.stores_head indices.stores_tail

/-- A head the consumer may still load is not ahead of the latest one. -/
theorem ahead_latest
    (indices : Indices ringbuf heads tails)
    (recent : heads.loaded ≤ index)
    (stored : heads.stores[index]? = some head) :
    Between ringbuf.tail head ringbuf.head :=
  indices.ahead recent (Atomic.index_le stored) stored indices.stores_head

/-- The latest tail is not behind one the producer may still load. -/
theorem behind_latest
    (indices : Indices ringbuf heads tails)
    (recent : tails.loaded ≤ index)
    (stored : tails.stores[index]? = some tail) :
    Between tail ringbuf.tail ringbuf.head :=
  indices.behind recent (Atomic.index_le stored) stored indices.stores_tail

/-- Nothing but the indices and the size matters. -/
theorem congr
    (indices : Indices ringbuf heads tails)
    (size : other.size = ringbuf.size)
    (mask : other.mask = ringbuf.mask)
    (sameHead : other.head = ringbuf.head)
    (sameTail : other.tail = ringbuf.tail) :
    Indices other heads tails where
  head := by rw [sameHead, indices.head]
  tail := by rw [sameTail, indices.tail]
  headKnown := indices.headKnown
  tailKnown := indices.tailKnown
  sound := by
    intro head headMember tail tailMember
    obtain ⟨power, maskEq, headAligned, tailAligned, headInside, tailInside⟩ :=
      indices.sound head headMember tail tailMember
    simp only [Ringbuf.withIndices, ← size, ← mask] at power maskEq headInside tailInside
    exact ⟨power, maskEq, headAligned, tailAligned, headInside, tailInside⟩
  ahead := by
    rw [sameTail]
    exact indices.ahead
  behind := by
    rw [sameHead]
    exact indices.behind

/-- The producer loads a tail. -/
theorem loadTail
    (indices : Indices ringbuf heads tails)
    (may : tails.MayLoad index tail) :
    Indices ringbuf heads (tails.load may true) where
  head := indices.head
  tail := indices.tail
  headKnown := indices.headKnown
  tailKnown := rfl
  sound := indices.sound
  ahead := indices.ahead
  behind := by
    intro first second tail later recent
    exact indices.behind (Nat.le_trans may.coherent recent)

/-- The consumer loads a head. -/
theorem loadHead
    (indices : Indices ringbuf heads tails)
    (may : heads.MayLoad index head) :
    Indices ringbuf (heads.load may true) tails where
  head := indices.head
  tail := indices.tail
  headKnown := rfl
  tailKnown := indices.tailKnown
  sound := indices.sound
  ahead := by
    intro first second head later recent
    exact indices.ahead (Nat.le_trans may.coherent recent)
  behind := indices.behind

/-- Room beside the tail the producer has loaded is room beside every later one. -/
theorem room_at
    (indices : Indices ringbuf heads tails)
    (room : Room (ringbuf.withIndices ringbuf.head tails.returned) amount element)
    (recent : tails.loaded ≤ index)
    (stored : tails.stores[index]? = some tail) :
    Room (ringbuf.withIndices ringbuf.head tail) amount element :=
  room.later_tail (indices.sound_at indices.stores_head Atomic.stores_loaded)
    (indices.behind (Nat.le_refl _) recent Atomic.stores_loaded stored)

/-- The producer stores a head behind a chunk it had room for. -/
theorem storeHead
    (indices : Indices ringbuf heads tails)
    (room : Room (ringbuf.withIndices ringbuf.head tails.returned) amount element)
    (newSound :
      Sound { ringbuf with head := advancedHead ringbuf ringbuf.head amount }) :
    Indices { ringbuf with head := advancedHead ringbuf ringbuf.head amount }
      (heads.store (advancedHead ringbuf ringbuf.head amount)) tails where
  head := rfl
  tail := indices.tail
  headKnown := indices.headKnown
  tailKnown := indices.tailKnown
  sound := by
    intro head headMember tail tailMember
    rw [Atomic.stores_store, List.mem_append, List.mem_singleton] at headMember
    rcases headMember with earlier | rfl
    · exact { indices.sound head earlier tail tailMember with }
    · have tailSound := indices.sound ringbuf.head
        (List.mem_of_getElem? indices.stores_head) tail tailMember
      exact
        { tailSound with
          headAligned := newSound.headAligned
          headInside := newSound.headInside }
  ahead := by
    intro first second head later recent ordered firstStored secondStored
    rcases Atomic.stores_store_cases firstStored with firstEarlier | ⟨firstLast, rfl⟩
    · rcases Atomic.stores_store_cases secondStored with secondEarlier | ⟨_, rfl⟩
      · exact indices.ahead recent ordered firstEarlier secondEarlier
      · exact Between.publish indices.sound_latest
          (indices.room_at room (Atomic.loaded_le tails) indices.stores_tail)
          (indices.ahead_latest recent firstEarlier)
    · have secondLast : second = first := by
        have bound := Atomic.index_le secondStored
        rw [Atomic.epoch_store] at bound
        omega
      subst second
      obtain rfl := Option.some.inj (firstStored.symm.trans secondStored)
      exact Between.right _ _
  behind := by
    intro first second tail later recent ordered firstStored secondStored
    exact Between.publish (indices.sound_at indices.stores_head firstStored)
      (indices.room_at room recent firstStored)
      (indices.behind recent ordered firstStored secondStored)

/-- The consumer moves the tail towards the head it has loaded. -/
theorem storeTail
    (indices : Indices ringbuf heads tails)
    (aligned : 8 ∣ next)
    (inside : next < ringbuf.size)
    (towards : Between ringbuf.tail next heads.returned) :
    Indices { ringbuf with tail := next } heads (tails.store next) where
  head := indices.head
  tail := rfl
  headKnown := indices.headKnown
  tailKnown := indices.tailKnown
  sound := by
    intro head headMember tail tailMember
    rw [Atomic.stores_store, List.mem_append, List.mem_singleton] at tailMember
    rcases tailMember with earlier | rfl
    · exact { indices.sound head headMember tail earlier with }
    · have headSound := indices.sound head headMember ringbuf.tail
        (List.mem_of_getElem? indices.stores_tail)
      exact { headSound with tailAligned := aligned, tailInside := inside }
  ahead := by
    intro first second head later recent ordered firstStored secondStored
    have start : Between ringbuf.tail next head :=
      towards.extend (indices.ahead (Nat.le_refl _) recent Atomic.stores_loaded firstStored)
    exact start.later (indices.ahead recent ordered firstStored secondStored)
  behind := by
    intro first second tail later recent ordered firstStored secondStored
    have latest : Between ringbuf.tail next ringbuf.head :=
      towards.extend (indices.ahead_latest (Nat.le_refl _) Atomic.stores_loaded)
    rcases Atomic.stores_store_cases secondStored with secondEarlier | ⟨_, rfl⟩
    · have firstEarlier : tails.stores[first]? = some tail := by
        rcases Atomic.stores_store_cases firstStored with earlier | ⟨last, _⟩
        · exact earlier
        · have bound := Atomic.index_le secondEarlier
          omega
      exact indices.behind recent ordered firstEarlier secondEarlier
    · rcases Atomic.stores_store_cases firstStored with firstEarlier | ⟨_, rfl⟩
      · exact (indices.behind_latest recent firstEarlier).earlier latest
      · exact Between.left _ _

end Indices

/-! ## The accesses -/

/--
Every byte the consumer takes for unread was written before the head it goes by, and every
byte the producer takes for free was read before the tail it goes by.
-/
structure Stamped
    (ringbuf : Ringbuf)
    (heads tails : Atomic Nat)
    (written readAt : Stamps) : Prop where
  written :
    ∀ {cell epoch},
      written cell = some epoch →
      epoch ≤ heads.epoch ∧
        ∀ index head,
          heads.loaded ≤ index →
          heads.stores[index]? = some head →
          Used (ringbuf.withIndices head ringbuf.tail) cell →
          epoch < index
  readAt :
    ∀ {cell epoch},
      readAt cell = some epoch →
      epoch ≤ tails.epoch ∧
        ∀ index tail,
          tails.loaded ≤ index →
          tails.stores[index]? = some tail →
          ¬ Used (ringbuf.withIndices ringbuf.head tail) cell →
          epoch < index

namespace Stamped

variable
  {ringbuf : Ringbuf}
  {heads tails : Atomic Nat}
  {written readAt : Stamps}
  {index head tail address length amount element next : Nat}

/-- Bytes that are free in the eyes of the producer are free in those of the consumer. -/
theorem unused_at
    (indices : Indices ringbuf heads tails)
    {cell : Nat}
    (unused : ¬ Used (ringbuf.withIndices ringbuf.head tails.returned) cell)
    (recent : heads.loaded ≤ index)
    (stored : heads.stores[index]? = some head) :
    ¬ Used (ringbuf.withIndices head ringbuf.tail) cell := by
  intro used
  apply unused
  apply used_of_later_tail (indices.behind_latest (Nat.le_refl _) Atomic.stores_loaded)
  exact used_of_earlier_head (indices.ahead_latest recent stored) used

/-- Bytes that are unread in the eyes of the consumer are unread in those of the producer. -/
theorem used_at
    (indices : Indices ringbuf heads tails)
    {cell : Nat}
    (used : Used (ringbuf.withIndices heads.returned ringbuf.tail) cell)
    (recent : tails.loaded ≤ index)
    (stored : tails.stores[index]? = some tail) :
    Used (ringbuf.withIndices ringbuf.head tail) cell := by
  apply used_of_later_tail (indices.behind_latest recent stored)
  exact used_of_earlier_head
    (indices.ahead_latest (Nat.le_refl _) Atomic.stores_loaded) used

/-- The producer writes to bytes it takes for free. -/
theorem write
    (stamped : Stamped ringbuf heads tails written readAt)
    (indices : Indices ringbuf heads tails)
    (unused :
      ∀ cell, address ≤ cell → cell < address + length →
        ¬ Used (ringbuf.withIndices ringbuf.head tails.returned) cell) :
    readAt.conflict address length tails.known = false ∧
      Stamped ringbuf heads tails (written.mark address length heads.epoch) readAt := by
  constructor
  · apply Stamps.conflict_eq_false
    intro cell epoch above below stamp
    rw [indices.tailKnown]
    exact (stamped.readAt stamp).2 _ _ (Nat.le_refl _) Atomic.stores_loaded
      (unused cell above below)
  · refine ⟨?_, stamped.readAt⟩
    intro cell epoch stamp
    rcases Stamps.mark_cases stamp with ⟨above, below, rfl⟩ | former
    · refine ⟨Nat.le_refl _, ?_⟩
      intro index head recent stored used
      exact (unused_at indices (unused cell above below) recent stored used).elim
    · exact stamped.written former

/-- The consumer reads bytes it takes for unread. -/
theorem read
    (stamped : Stamped ringbuf heads tails written readAt)
    (indices : Indices ringbuf heads tails)
    (used :
      ∀ cell, address ≤ cell → cell < address + length →
        Used (ringbuf.withIndices heads.returned ringbuf.tail) cell) :
    written.conflict address length heads.known = false ∧
      Stamped ringbuf heads tails written (readAt.mark address length tails.epoch) := by
  constructor
  · apply Stamps.conflict_eq_false
    intro cell epoch above below stamp
    rw [indices.headKnown]
    exact (stamped.written stamp).2 _ _ (Nat.le_refl _) Atomic.stores_loaded
      (used cell above below)
  · refine ⟨stamped.written, ?_⟩
    intro cell epoch stamp
    rcases Stamps.mark_cases stamp with ⟨above, below, rfl⟩ | former
    · refine ⟨Nat.le_refl _, ?_⟩
      intro index tail recent stored unused
      exact (unused (used_at indices (used cell above below) recent stored)).elim
    · exact stamped.readAt former

/-- The producer loads a tail. -/
theorem loadTail
    (stamped : Stamped ringbuf heads tails written readAt)
    (may : tails.MayLoad index tail) :
    Stamped ringbuf heads (tails.load may true) written readAt where
  written := stamped.written
  readAt := by
    intro cell epoch stamp
    obtain ⟨before, ordered⟩ := stamped.readAt stamp
    refine ⟨before, ?_⟩
    intro other tail recent
    exact ordered other tail (Nat.le_trans may.coherent recent)

/-- The consumer loads a head. -/
theorem loadHead
    (stamped : Stamped ringbuf heads tails written readAt)
    (may : heads.MayLoad index head) :
    Stamped ringbuf (heads.load may true) tails written readAt where
  written := by
    intro cell epoch stamp
    obtain ⟨before, ordered⟩ := stamped.written stamp
    refine ⟨before, ?_⟩
    intro other head recent
    exact ordered other head (Nat.le_trans may.coherent recent)
  readAt := stamped.readAt

/-- The producer stores a head behind a chunk it had room for. -/
theorem storeHead
    (stamped : Stamped ringbuf heads tails written readAt)
    (indices : Indices ringbuf heads tails)
    (room : Room (ringbuf.withIndices ringbuf.head tails.returned) amount element) :
    Stamped { ringbuf with head := advancedHead ringbuf ringbuf.head amount }
      (heads.store (advancedHead ringbuf ringbuf.head amount)) tails written readAt where
  written := by
    intro cell epoch stamp
    obtain ⟨before, ordered⟩ := stamped.written stamp
    rw [Atomic.epoch_store]
    refine ⟨Nat.le_succ_of_le before, ?_⟩
    intro index head recent stored used
    rcases Atomic.stores_store_cases stored with earlier | ⟨rfl, _⟩
    · exact ordered index head recent earlier used
    · exact Nat.lt_succ_of_le before
  readAt := by
    intro cell epoch stamp
    obtain ⟨before, ordered⟩ := stamped.readAt stamp
    refine ⟨before, ?_⟩
    intro index tail recent stored unused
    apply ordered index tail recent stored
    intro used
    apply unused
    have onward := Between.publish (indices.sound_at indices.stores_head stored)
      (indices.room_at room recent stored) (Between.right tail ringbuf.head)
    exact used_of_earlier_head onward used

/-- The consumer moves the tail towards the head it has loaded. -/
theorem storeTail
    (stamped : Stamped ringbuf heads tails written readAt)
    (indices : Indices ringbuf heads tails)
    (towards : Between ringbuf.tail next heads.returned) :
    Stamped { ringbuf with tail := next } heads (tails.store next) written readAt where
  written := by
    intro cell epoch stamp
    obtain ⟨before, ordered⟩ := stamped.written stamp
    refine ⟨before, ?_⟩
    intro index head recent stored used
    apply ordered index head recent stored
    have start : Between ringbuf.tail next head :=
      towards.extend (indices.ahead (Nat.le_refl _) recent Atomic.stores_loaded stored)
    exact used_of_later_tail start used
  readAt := by
    intro cell epoch stamp
    obtain ⟨before, ordered⟩ := stamped.readAt stamp
    rw [Atomic.epoch_store]
    refine ⟨Nat.le_succ_of_le before, ?_⟩
    intro index tail recent stored unused
    rcases Atomic.stores_store_cases stored with earlier | ⟨rfl, _⟩
    · exact ordered index tail recent earlier unused
    · exact Nat.lt_succ_of_le before

end Stamped

/-! ## The contents -/

section Agreement

variable
  {ringbuf : Ringbuf}
  {head ahead tail gap : Nat}
  {shape other : Shape}
  {chunk second : List UInt8}
  {back : List (List UInt8)}

/-- One chunk is stored at a place. -/
theorem ChunkAt.unique
    {buf : Memory}
    {element : Nat}
    (stored : ChunkAt buf element chunk)
    (again : ChunkAt buf element second) :
    chunk = second := by
  have sameLength : chunk.length = second.length := stored.size.symm.trans again.size
  rw [← stored.bytes, sameLength, again.bytes]

/-- A later head shows the same first chunk. -/
theorem Fits.first_ahead
    (sound : Sound (ringbuf.withIndices head tail))
    (fits : Fits (ringbuf.withIndices head tail) shape)
    (first : shape.first = some chunk)
    (later : Fits (ringbuf.withIndices ahead tail) other)
    (onward : Between tail head ahead) :
    other.first = some chunk := by
  have stored : ChunkAt ringbuf.buf tail chunk := (fits.first sound first).1
  have tailInside : tail < ringbuf.size := sound.tailInside
  cases other with
  | straight chunks =>
      obtain ⟨ordered, segment⟩ := later
      cases chunks with
      | nil =>
          -- A head that has caught up with the tail was there before.
          obtain rfl : tail = ahead := segment
          obtain rfl : head = tail := by
            unfold Between at onward
            omega
          cases shape with
          | straight chunks =>
              obtain ⟨rest, rfl⟩ := List.head?_eq_some_iff.mp first
              have below : head + chunkSpan chunk ≤ head := fits.2.first_le
              have atLeast := stored.inside.1
              omega
          | wrapped front back gap =>
              exact (Nat.lt_irrefl _ fits.1).elim
      | cons held rest =>
          exact congrArg some (segment.1.unique stored)
  | wrapped front back gap =>
      obtain ⟨ordered, ends, frontSegment, backSegment⟩ := later
      cases front with
      | nil =>
          obtain rfl : tail = gap := frontSegment
          exact ((ends.gap tailInside).1 stored.noGap).elim
      | cons held rest =>
          exact congrArg some (frontSegment.1.unique stored)

/-- The first unread chunk lies among the unread bytes. -/
theorem Fits.used_first
    {cell : Nat}
    (fits : Fits (ringbuf.withIndices head tail) shape)
    (first : shape.first = some chunk)
    (above : tail ≤ cell)
    (below : cell < tail + chunkSpan chunk) :
    Used (ringbuf.withIndices head tail) cell := by
  rw [used_withIndices]
  cases shape with
  | straight chunks =>
      obtain ⟨rest, rfl⟩ := List.head?_eq_some_iff.mp first
      have upTo : tail + chunkSpan chunk ≤ head := fits.2.first_le
      exact Or.inr ⟨above, by omega⟩
  | wrapped front back gap =>
      have wrapped : head < tail := fits.1
      exact Or.inl ⟨wrapped, Or.inr above⟩

/-- What the consumer found behind an old head it would find behind a later one. -/
theorem ConsumerOk.loaded_ahead
    (sound : Sound (ringbuf.withIndices head tail))
    (fits : Fits (ringbuf.withIndices head tail) shape)
    (ok : ConsumerOk ringbuf.size tail shape (afterLoadingHead ringbuf head tail))
    (later : Fits (ringbuf.withIndices ahead tail) other)
    (onward : Between tail head ahead) :
    ConsumerOk ringbuf.size tail other (afterLoadingHead ringbuf head tail) := by
  simp only [afterLoadingHead] at ok ⊢
  split
  · rename_i available
    rw [if_pos available] at ok
    split
    · rename_i beyond
      rw [if_pos beyond] at ok
      obtain ⟨same, front, back, gap, rfl⟩ := ok
      have wrapped : head < tail := fits.1
      refine ⟨same, ?_⟩
      cases other with
      | straight chunks =>
          have ordered : tail ≤ ahead := later.1
          unfold Between at onward
          omega
      | wrapped front back gap =>
          exact ⟨front, back, gap, rfl⟩
    · rename_i contiguous
      rw [if_neg contiguous] at ok
      obtain ⟨same, chunk, first⟩ := ok
      exact ⟨same, chunk, fits.first_ahead sound first later onward⟩
  · trivial

end Agreement

/-- The ring as the consumer sees it that takes `head` for the latest one. -/
def OrderedSystem.view (system : OrderedSystem) (head : Nat) (advanced : List (List UInt8)) :
    System where
  ringbuf := system.ringbuf.withIndices head system.ringbuf.tail
  producer := .idle
  consumer := system.consumer
  advanced := advanced
  consumed := system.consumed

/--
The invariant.  Whichever head the consumer goes by, the ring delivers its chunks in order,
as it does without old values.
-/
structure RaceFree (system : OrderedSystem) : Prop where
  synchronizes : system.synchronizes = true
  indices : Indices system.ringbuf system.heads system.tails
  stamped : Stamped system.ringbuf system.heads system.tails system.written system.readAt
  raced : system.raced = false
  producer :
    ProducerOk (system.ringbuf.withIndices system.ringbuf.head system.tails.returned)
      system.producer
  views :
    ∀ index head,
      system.heads.loaded ≤ index →
      system.heads.stores[index]? = some head →
      ∃ advanced shape, Delivers (system.view head advanced) shape
  latest : ∃ shape, Delivers (system.view system.ringbuf.head system.advanced) shape

/-- A store to free bytes keeps the view of the consumer. -/
theorem Delivers.write
    {system : OrderedSystem}
    {head address : Nat}
    {advanced : List (List UInt8)}
    {bytes : List UInt8}
    {shape : Shape}
    (delivers : Delivers (system.view head advanced) shape)
    (unused :
      ∀ cell, address ≤ cell → cell < address + bytes.length →
        ¬ Used (system.ringbuf.withIndices head system.ringbuf.tail) cell) :
    Delivers ((system.write address bytes).view head advanced) shape where
  sound := { delivers.sound with }
  fits := delivers.fits.write unused
  producer := trivial
  consumer := delivers.consumer
  order := delivers.order

/-- A reservation does not touch the view of the consumer. -/
theorem Delivers.reserve
    {ringbuf : Ringbuf}
    {consumer : Consumer}
    {head tail rsvd gapd : Nat}
    {advanced consumed : List (List UInt8)}
    {shape : Shape}
    (delivers :
      Delivers
        { ringbuf := ringbuf.withIndices head tail
          producer := .idle
          consumer := consumer
          advanced := advanced
          consumed := consumed }
        shape) :
    Delivers
      { ringbuf := (ringbuf.reserve rsvd gapd).withIndices head tail
        producer := .idle
        consumer := consumer
        advanced := advanced
        consumed := consumed }
      shape where
  sound := { delivers.sound with }
  fits := by
    have fits := delivers.fits
    cases shape <;> exact fits
  producer := trivial
  consumer := delivers.consumer
  order := delivers.order

/-- A request depends on the indices it loaded, not on those the ring holds by then. -/
theorem writeRequest_withIndices (ringbuf : Ringbuf) (head tail minimum : Nat) :
    ringbufWriteRequestMax ringbuf head tail minimum =
      (ringbuf.reserve
          (ringbufWriteRequestMax (ringbuf.withIndices head tail) head tail minimum).1.rsvd
          (ringbufWriteRequestMax (ringbuf.withIndices head tail) head tail minimum).1.gapd,
        (ringbufWriteRequestMax (ringbuf.withIndices head tail) head tail minimum).2) := by
  simp only [ringbufWriteRequestMax, writableSpace, Ringbuf.withIndices]
  split_ifs <;> rfl

/-! ## The producer -/

/-- The producer writes to bytes it takes for free. -/
theorem RaceFree.write
    {system : OrderedSystem}
    {address : Nat}
    {bytes : List UInt8}
    {producer : Producer}
    (free : RaceFree system)
    (unused :
      ∀ cell, address ≤ cell → cell < address + bytes.length →
        ¬ Used (system.ringbuf.withIndices system.ringbuf.head system.tails.returned) cell)
    (ok :
      ProducerOk
        ((system.write address bytes).ringbuf.withIndices system.ringbuf.head
          system.tails.returned)
        producer) :
    RaceFree { system.write address bytes with producer := producer } := by
  obtain ⟨noRace, stamped⟩ := free.stamped.write free.indices unused
  have unseen :
      ∀ index head,
        system.heads.loaded ≤ index →
        system.heads.stores[index]? = some head →
        ∀ cell, address ≤ cell → cell < address + bytes.length →
          ¬ Used (system.ringbuf.withIndices head system.ringbuf.tail) cell := by
    intro index head recent stored cell above below
    exact Stamped.unused_at free.indices (unused cell above below) recent stored
  refine ⟨free.synchronizes, free.indices.congr rfl rfl rfl rfl, { stamped with }, ?_, ok, ?_, ?_⟩
  · change (system.raced || system.readAt.conflict address bytes.length system.tails.known) = false
    rw [free.raced, noRace, Bool.false_or]
  · intro index head recent stored
    obtain ⟨advanced, shape, delivers⟩ := free.views index head recent stored
    exact ⟨advanced, shape, delivers.write (unseen index head recent stored)⟩
  · obtain ⟨shape, delivers⟩ := free.latest
    exact ⟨shape, delivers.write
      (unseen _ _ (Atomic.loaded_le system.heads) free.indices.stores_head)⟩

/-- The producer reserves beside the tail it loads. -/
theorem RaceFree.loadTail
    {system : OrderedSystem}
    {minimum index tail : Nat}
    (free : RaceFree system)
    (word : minimum + 7 < 2 ^ 32)
    (may : system.tails.MayLoad index tail) :
    RaceFree
      { system with
        tails := system.tails.load may system.synchronizes
        ringbuf := (ringbufWriteRequestMax system.ringbuf system.ringbuf.head tail minimum).1
        producer :=
          match (ringbufWriteRequestMax system.ringbuf system.ringbuf.head tail minimum).2 with
          | none => .idle
          | some pointer => .reserved minimum pointer } := by
  have sound := free.indices.sound_at free.indices.stores_head may.stored
  obtain ⟨rsvd, gapd, result, requested, granted⟩ := writeRequest_room sound word
  have request : ringbufWriteRequestMax system.ringbuf system.ringbuf.head tail minimum =
      (system.ringbuf.reserve rsvd gapd, result) := by
    have viewed :
        ringbufWriteRequestMax (system.ringbuf.withIndices system.ringbuf.head tail)
            system.ringbuf.head tail minimum =
          ((system.ringbuf.withIndices system.ringbuf.head tail).reserve rsvd gapd, result) :=
      requested
    rw [writeRequest_withIndices, viewed]
    rfl
  have synchronizes := free.synchronizes
  simp only [request, synchronizes]
  refine ⟨synchronizes, (free.indices.loadTail may).congr rfl rfl rfl rfl,
    { free.stamped.loadTail may with }, free.raced, ?_, ?_, ?_⟩
  · simp only [Atomic.returned_load]
    cases result with
    | none =>
        trivial
    | some pointer =>
        obtain ⟨reserved, enough, element, place, room⟩ := granted pointer rfl
        exact ⟨word, reserved, element, place, (room minimum).mpr enough⟩
  · intro index head recent stored
    obtain ⟨advanced, shape, delivers⟩ := free.views index head recent stored
    exact ⟨advanced, shape, delivers.reserve⟩
  · obtain ⟨shape, delivers⟩ := free.latest
    exact ⟨shape, delivers.reserve⟩

/-- The producer publishes a complete chunk. -/
theorem RaceFree.publish
    {system : OrderedSystem}
    {element : Nat}
    {chunk : List UInt8}
    (free : RaceFree system)
    (room :
      Room (system.ringbuf.withIndices system.ringbuf.head system.tails.returned)
        chunk.length element)
    (completing :
      Completing (system.ringbuf.withIndices system.ringbuf.head system.tails.returned)
        element chunk []) :
    RaceFree
      { system.storeHead (advancedHead system.ringbuf system.ringbuf.head chunk.length) with
        producer := .idle
        advanced := system.advanced ++ [chunk] } := by
  have indices := free.indices
  -- The consumer that goes by the latest head is told of the chunk as without old values.
  obtain ⟨shape, delivers⟩ := free.latest
  have storing :
      Delivers
        { system.view system.ringbuf.head system.advanced with
          producer := .storing system.ringbuf.head chunk.length chunk [] }
        shape :=
    { delivers with
      producer :=
        ⟨rfl, rfl, element,
          indices.room_at room (Atomic.loaded_le system.tails) indices.stores_tail,
          completing.chunkAt, completing.gapMarked, by simp⟩ }
  obtain ⟨result, published⟩ := producer_delivers storing (.publish rfl)
  refine ⟨free.synchronizes, indices.storeHead room published.sound,
    free.stamped.storeHead indices room, free.raced, trivial, ?_, ⟨result, published⟩⟩
  intro index head recent stored
  rcases Atomic.stores_store_cases stored with earlier | ⟨_, rfl⟩
  · exact free.views index head recent earlier
  · exact ⟨_, result, published⟩

/-- Every step of the producer keeps the ring free of races. -/
theorem OrderedProducerStep.raceFree
    {before after : OrderedSystem}
    (free : RaceFree before)
    (step : OrderedProducerStep before after) :
    RaceFree after := by
  have producer := free.producer
  cases step with
  | loadHead _ word =>
      exact { free with producer := ⟨rfl, word⟩ }
  | @loadTail minimum head index tail here may =>
      rw [here] at producer
      obtain ⟨rfl, word⟩ := producer
      exact free.loadTail word may
  | @fill minimum pointer index here inside byte =>
      rw [here] at producer
      obtain ⟨word, asserted, element, rfl, room⟩ := producer
      have atLeast := (ringbufPad_spec word).1
      refine @RaceFree.write _ _ _ before.producer free ?_ ?_
      · intro cell above below
        simp only [List.length_singleton] at below
        exact room.unused (Or.inl ⟨by omega, by omega⟩)
      · rw [here]
        exact ⟨word, asserted, element, rfl, room⟩
  | @advance minimum pointer written here requested asserted =>
      rw [here] at producer
      obtain ⟨word, _, element, rfl, room⟩ := producer
      have smaller := room.mono requested word
      have sound := free.indices.sound_at free.indices.stores_head Atomic.stores_loaded
      have completing := completing_headerStores sound (by omega) smaller
      exact { free with producer := ⟨rfl, length_read, element, smaller, completing⟩ }
  | @store head written address chunk bytes stores here =>
      rw [here] at producer
      obtain ⟨atHead, length, element, room, completing⟩ := producer
      refine free.write ?_
        ⟨atHead, length, element, room, completing.chunkAt, completing.gapMarked, ?_⟩
      · exact completing.unused (address, bytes) List.mem_cons_self
      · intro store member
        exact completing.unused store (List.mem_cons_of_mem _ member)
  | @publish head written chunk here =>
      rw [here] at producer
      obtain ⟨rfl, rfl, element, room, completing⟩ := producer
      exact free.publish room completing

/-! ## The consumer -/

/-- What the consumer does is a step of every view of the ring. -/
theorem RaceFree.views_step
    {before after : OrderedSystem}
    (free : RaceFree before)
    (heads : after.heads = before.heads)
    (sameHead : after.ringbuf.head = before.ringbuf.head)
    (sameAdvanced : after.advanced = before.advanced)
    (step :
      ∀ head advanced, ConsumerStep (before.view head advanced) (after.view head advanced)) :
    (∀ index head,
        after.heads.loaded ≤ index →
        after.heads.stores[index]? = some head →
        ∃ advanced shape, Delivers (after.view head advanced) shape) ∧
      ∃ shape, Delivers (after.view after.ringbuf.head after.advanced) shape := by
  constructor
  · intro index head recent stored
    rw [heads] at recent stored
    obtain ⟨advanced, shape, delivers⟩ := free.views index head recent stored
    exact ⟨advanced, consumer_delivers delivers (step head advanced)⟩
  · obtain ⟨shape, delivers⟩ := free.latest
    rw [sameHead, sameAdvanced]
    exact consumer_delivers delivers (step _ _)

/-- The view of the consumer that goes by the head it has loaded. -/
theorem RaceFree.loaded
    {system : OrderedSystem}
    (free : RaceFree system) :
    ∃ advanced shape, Delivers (system.view system.heads.returned advanced) shape :=
  free.views _ _ (Nat.le_refl _) Atomic.stores_loaded

/-- The consumer reads bytes it takes for unread. -/
theorem RaceFree.read
    {system : OrderedSystem}
    {address length : Nat}
    {consumer : Consumer}
    (free : RaceFree system)
    (used :
      ∀ cell, address ≤ cell → cell < address + length →
        Used (system.ringbuf.withIndices system.heads.returned system.ringbuf.tail) cell)
    (step :
      ∀ head advanced,
        ConsumerStep (system.view head advanced)
          { system.view head advanced with consumer := consumer }) :
    RaceFree { system.read address length with consumer := consumer } := by
  obtain ⟨noRace, stamped⟩ := free.stamped.read free.indices used
  obtain ⟨views, latest⟩ :=
    @RaceFree.views_step _ { system.read address length with consumer := consumer } free
      rfl rfl rfl step
  refine ⟨free.synchronizes, free.indices, stamped, ?_, free.producer, views, latest⟩
  change (system.raced || system.written.conflict address length system.heads.known) = false
  rw [free.raced, noRace, Bool.false_or]

/-- The consumer stores a tail between the old one and the head it has loaded. -/
theorem RaceFree.storeTail
    {system : OrderedSystem}
    {tail : Nat}
    {consumer : Consumer}
    (free : RaceFree system)
    (releases :
      Releases (system.ringbuf.withIndices system.heads.returned system.ringbuf.tail) tail)
    (step :
      ∀ head advanced,
        ConsumerStep (system.view head advanced)
          { (system.storeTail tail).view head advanced with consumer := consumer }) :
    RaceFree { system.storeTail tail with consumer := consumer } := by
  have towards := releases.between
  obtain ⟨views, latest⟩ :=
    @RaceFree.views_step _ { system.storeTail tail with consumer := consumer } free
      rfl rfl rfl step
  obtain ⟨shape, moved⟩ := latest
  have indices := free.indices.storeTail moved.sound.tailAligned moved.sound.tailInside towards
  refine ⟨free.synchronizes, indices, free.stamped.storeTail free.indices towards, free.raced,
    ?_, views, ⟨shape, moved⟩⟩
  change ProducerOk
    (system.ringbuf.withIndices system.ringbuf.head (system.tails.store tail).returned) _
  rw [Atomic.returned_store]
  exact free.producer

/-- The consumer loads a head. -/
theorem RaceFree.loadHead
    {system : OrderedSystem}
    {index head : Nat}
    (free : RaceFree system)
    (here : system.consumer = .loadedTail system.ringbuf.tail)
    (may : system.heads.MayLoad index head) :
    RaceFree
      { system with
        heads := system.heads.load may system.synchronizes
        consumer := afterLoadingHead system.ringbuf head system.ringbuf.tail } := by
  obtain ⟨held, shape, delivers⟩ := free.views index head may.coherent may.stored
  have chosen := afterLoadingHead_ok delivers.sound delivers.fits
  -- Whatever later head the consumer goes by, it goes on as with the one it has loaded.
  have onward :
      ∀ {later : Nat} {advanced : List (List UInt8)} {other : Shape},
        Between system.ringbuf.tail head later →
        Delivers (system.view later advanced) other →
        Delivers
          { system.view later advanced with
            consumer := afterLoadingHead system.ringbuf head system.ringbuf.tail }
          other := by
    intro later advanced other ahead delivered
    refine { delivered with consumer := ?_, order := ?_ }
    · exact chosen.1.loaded_ahead delivers.sound delivers.fits delivered.fits ahead
    · have order := delivered.order
      rw [show (system.view later advanced).consumer.counted = false from
        congrArg Consumer.counted here] at order
      have uncounted :
          (afterLoadingHead system.ringbuf head system.ringbuf.tail).counted = false :=
        chosen.2
      change advanced = system.consumed ++
        if (afterLoadingHead system.ringbuf head system.ringbuf.tail).counted then
          other.unread.tail
        else
          other.unread
      rw [uncounted]
      exact order
  have synchronizes := free.synchronizes
  simp only [synchronizes]
  refine ⟨synchronizes, free.indices.loadHead may, free.stamped.loadHead may, free.raced,
    free.producer, ?_, ?_⟩
  · intro second later recent stored
    obtain ⟨advanced, other, delivered⟩ :=
      free.views second later (Nat.le_trans may.coherent recent) stored
    have ahead := free.indices.ahead may.coherent recent may.stored stored
    exact ⟨advanced, other, onward ahead delivered⟩
  · obtain ⟨other, delivered⟩ := free.latest
    exact ⟨other, onward (free.indices.ahead_latest may.coherent may.stored) delivered⟩

/-- Every step of the consumer keeps the ring free of races. -/
theorem OrderedConsumerStep.raceFree
    {before after : OrderedSystem}
    (free : RaceFree before)
    (step : OrderedConsumerStep before after) :
    RaceFree after := by
  obtain ⟨advanced, shape, delivers⟩ := free.loaded
  have consumer :
      ConsumerOk before.ringbuf.size before.ringbuf.tail shape before.consumer :=
    delivers.consumer
  cases step with
  | loadTail here =>
      obtain ⟨views, latest⟩ := @RaceFree.views_step _
        { before with consumer := .loadedTail before.ringbuf.tail } free rfl rfl rfl
        (fun _ _ => .loadTail here)
      exact { free with views := views, latest := latest }
  | @loadHead index head tail here may =>
      rw [here] at consumer
      obtain rfl : tail = before.ringbuf.tail := consumer
      exact free.loadHead here may
  | @testGap tail here =>
      rw [here] at consumer
      obtain ⟨rfl, front, back, gap, rfl⟩ := consumer
      have wrapped : before.heads.returned < before.ringbuf.tail := delivers.fits.1
      refine free.read ?_ (fun _ _ => .testGap here)
      intro cell above _
      rw [used_withIndices]
      exact Or.inl ⟨wrapped, Or.inr (Nat.le_trans (Nat.le_add_right _ 4) above)⟩
  | @skipGap tail here =>
      rw [here] at consumer
      obtain ⟨rfl, back, gap, rfl⟩ := consumer
      have wrapped : before.heads.returned < before.ringbuf.tail := delivers.fits.1
      obtain ⟨_, moved⟩ := consumer_delivers delivers (.skipGap here)
      refine free.storeTail (Or.inr ⟨wrapped, ?_⟩) (fun _ _ => .skipGap here)
      exact moved.consumer.1.symm
  | @readSize element here =>
      rw [here] at consumer
      obtain ⟨rfl, chunk, first⟩ := consumer
      have span := (delivers.fits.first delivers.sound first).1.inside.1
      refine free.read ?_ (fun _ _ => .readSize here)
      intro cell above below
      exact delivers.fits.used_first first above (Nat.lt_of_lt_of_le below (by omega))
  | @readByte pointer toread bytes here more =>
      rw [here] at consumer
      obtain ⟨rfl, chunk, first, rfl, _⟩ := consumer
      have span := (delivers.fits.first delivers.sound first).1.inside.1
      refine free.read ?_ (fun _ _ => .readByte here more)
      intro cell above below
      exact delivers.fits.used_first first (Nat.le_trans (by omega) above)
        (Nat.lt_of_lt_of_le below (by omega))
  | @finish pointer toread bytes here complete =>
      obtain ⟨views, latest⟩ := @RaceFree.views_step _
        { before with consumer := .advancing, consumed := before.consumed ++ [bytes] } free
        rfl rfl rfl (fun _ _ => .finish here complete)
      exact { free with views := views, latest := latest }
  | reloadTail here =>
      obtain ⟨views, latest⟩ := @RaceFree.views_step _
        { before with consumer := .measuring before.ringbuf.tail } free rfl rfl rfl
        (fun _ _ => .reloadTail here)
      exact { free with views := views, latest := latest }
  | @rereadSize tail here =>
      rw [here] at consumer
      obtain ⟨rfl, chunk, first⟩ := consumer
      have span := (delivers.fits.first delivers.sound first).1.inside.1
      refine free.read ?_ (fun _ _ => .rereadSize here)
      intro cell above below
      exact delivers.fits.used_first first above (Nat.lt_of_lt_of_le below (by omega))
  | @storeTail tail here =>
      rw [here] at consumer
      obtain ⟨chunk, first, rfl⟩ := consumer
      obtain ⟨_, _, _, _, releases, _⟩ := delivers.fits.first delivers.sound first
      exact free.storeTail releases (fun _ _ => .storeTail here)

/-! ## Runs -/

/-- A fresh ring is free of races. -/
theorem raceFree_initial
    {memory : Ringbuf}
    {exponent : Nat}
    (small : exponent < 64) :
    RaceFree (OrderedSystem.initial (ringbufInit memory (2 ^ exponent)) true) := by
  have delivers := @delivers_initial memory exponent small
  have only : ∀ {index value : Nat}, [0][index]? = some value → value = 0 := by
    intro index value stored
    simpa using List.mem_of_getElem? stored
  refine ⟨rfl, ⟨rfl, rfl, rfl, rfl, ?_, ?_, ?_⟩, ⟨nofun, nofun⟩, rfl, trivial, ?_,
    ⟨_, delivers⟩⟩
  · intro head headMember tail tailMember
    obtain rfl : head = 0 := List.mem_singleton.mp headMember
    obtain rfl : tail = 0 := List.mem_singleton.mp tailMember
    exact delivers.sound
  · intro _ _ head later _ _ headStored laterStored
    rw [only headStored, only laterStored]
    exact Between.left _ _
  · intro _ _ tail later _ _ tailStored laterStored
    rw [only tailStored, only laterStored]
    exact Between.left _ _
  · intro _ head _ stored
    rw [only stored]
    exact ⟨[], _, delivers⟩

/-- Every state the two threads reach is free of races. -/
theorem raceFree_reachable
    {memory : Ringbuf}
    {exponent : Nat}
    {system : OrderedSystem}
    (small : exponent < 64)
    (reachable :
      Reachable OrderedStep
        (OrderedSystem.initial (ringbufInit memory (2 ^ exponent)) true) system) :
    RaceFree system := by
  apply reachable.invariant (raceFree_initial small)
  rintro before label after free step
  cases step with
  | producer step => exact step.raceFree free
  | consumer step => exact step.raceFree free

/--
With release and acquire no two accesses of the threads race, however old the values are
that they load.  The chunks the consumer has read are the first of those the producer has
advanced, and the bytes behind a pointer it holds are those of the next chunk.
-/
theorem ordered_chunks_delivered
    {memory : Ringbuf}
    {exponent : Nat}
    {system : OrderedSystem}
    (small : exponent < 64)
    (reachable :
      Reachable OrderedStep
        (OrderedSystem.initial (ringbufInit memory (2 ^ exponent)) true) system) :
    system.raced = false ∧
      system.consumed <+: system.advanced ∧
      ∀ pointer toread bytes,
        system.consumer = .holding pointer toread bytes →
        ∃ chunk rest,
          system.advanced = system.consumed ++ chunk :: rest ∧
            toread = chunk.length ∧
            read system.ringbuf.buf pointer toread = chunk := by
  have free := raceFree_reachable small reachable
  obtain ⟨shape, delivers⟩ := free.latest
  have order :
      system.advanced = system.consumed ++
        (if system.consumer.counted then shape.unread.tail else shape.unread) :=
    delivers.order
  refine ⟨free.raced, ⟨_, order.symm⟩, ?_⟩
  intro pointer toread bytes here
  have consumer :
      ConsumerOk system.ringbuf.size system.ringbuf.tail shape system.consumer :=
    delivers.consumer
  rw [here] at consumer order
  obtain ⟨rfl, chunk, first, rfl, _⟩ := consumer
  obtain ⟨stored, _, result, unread, _⟩ := delivers.fits.first delivers.sound first
  refine ⟨chunk, result.unread, ?_, rfl, stored.bytes⟩
  rw [order, unread]
  rfl

/-- The producer advances a chunk of one byte; the consumer first loads the old head. -/
theorem smallRing_ordered_held :
    ∃ system,
      Reachable OrderedStep (OrderedSystem.initial smallRing true) system ∧
        system.advanced = [[7]] ∧ system.consumer = .holding 8 1 [] := by
  have start :
      Reachable OrderedStep (OrderedSystem.initial smallRing true)
        (OrderedSystem.initial smallRing true) :=
    .refl
  have requested := start.next
    (.producer (@OrderedProducerStep.loadHead _ 1 (Or.inl rfl) (by decide)))
  have reserved := requested.next (.producer (.loadTail rfl ⟨Nat.le_refl 0, rfl⟩))
  have filled := reserved.next
    (.producer (@OrderedProducerStep.fill _ _ _ 0 rfl (by decide) 7))
  have advancing := filled.next
    (.producer (@OrderedProducerStep.advance _ _ _ 1 rfl (by decide) (by decide)))
  have sized := advancing.next (.producer (.store rfl))
  have marked := sized.next (.producer (.store rfl))
  have published := marked.next (.producer (.publish rfl))
  have looked := published.next (.consumer (.loadTail rfl))
  have missed := looked.next
    (.consumer (@OrderedConsumerStep.loadHead _ 0 0 0 rfl ⟨Nat.le_refl 0, rfl⟩))
  have again := missed.next (.consumer (.loadTail rfl))
  have found := again.next
    (.consumer (@OrderedConsumerStep.loadHead _ 1 16 0 rfl ⟨Nat.zero_le 1, rfl⟩))
  have held := found.next (.consumer (.readSize rfl))
  exact ⟨_, held, rfl, rfl⟩

/-- The guarantees while the consumer holds the chunk. -/
theorem smallRing_ordered_delivered :
    ∃ system : OrderedSystem,
      system.advanced = [[7]] ∧
        system.consumer = .holding 8 1 [] ∧
        system.raced = false ∧
        system.consumed <+: system.advanced ∧
        ∀ pointer toread bytes,
          system.consumer = .holding pointer toread bytes →
          ∃ chunk rest,
            system.advanced = system.consumed ++ chunk :: rest ∧
              toread = chunk.length ∧
              read system.ringbuf.buf pointer toread = chunk := by
  obtain ⟨system, reachable, advanced, held⟩ := smallRing_ordered_held
  exact ⟨system, advanced, held, ordered_chunks_delivered (by decide) reachable⟩

end Sysprog.ChunkRing
