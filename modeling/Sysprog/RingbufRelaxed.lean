import Sysprog.RingbufRaces

namespace Sysprog.ChunkRing

open ByteMemory Execution MachineWord ReleaseAcquire

/-!
# What relaxed loads and stores do to the ring

Without release and acquire the head tells the consumer that there is a chunk, but does not
order the stores to its header ahead of the load of its size.  Only a ring that is too short
for any chunk is free of races then.
-/

section Race

variable {memory : Ringbuf} {exponent : Nat}

/-- The first request for no bytes gets all of the ring that can hold an element. -/
theorem writeRequest_fresh
    (small : exponent < 64)
    (long : 5 ≤ exponent) :
    ringbufWriteRequestMax (ringbufInit memory (2 ^ exponent)) 0 0 0 =
      ((ringbufInit memory (2 ^ exponent)).reserve (2 ^ exponent - 1) 0, some 8) := by
  have sound := (@delivers_initial memory exponent small).sound
  have padded : ringbufPad 0 = 0 := by decide
  have room : 16 < 2 ^ exponent :=
    calc
      16 < 2 ^ 5 := by decide
      _ ≤ 2 ^ exponent := Nat.pow_le_pow_right (by decide) long
  have request := writeRequest_eq sound 0
  rw [padded] at request
  simpa [System.initial, ringbufInit, room] using request

/-- The head behind the first chunk, which has no bytes. -/
theorem advancedHead_fresh
    (small : exponent < 64)
    (long : 5 ≤ exponent) :
    advancedHead ((ringbufInit memory (2 ^ exponent)).reserve (2 ^ exponent - 1) 0) 0 0 = 8 := by
  have sound := (@delivers_initial memory exponent small).sound
  have room : 8 < 2 ^ exponent :=
    calc
      8 < 2 ^ 5 := by decide
      _ ≤ 2 ^ exponent := Nat.pow_le_pow_right (by decide) long
  have reserved :
      Sound ((ringbufInit memory (2 ^ exponent)).reserve (2 ^ exponent - 1) 0) :=
    { sound with }
  have place : Place ((ringbufInit memory (2 ^ exponent)).reserve (2 ^ exponent - 1) 0) 0 :=
    Or.inl ⟨rfl, rfl⟩
  have head := @advancedHead_eq _ 0 _ reserved place
  rw [show ringbufPad 0 = 0 by decide] at head
  exact head.trans (Nat.mod_eq_of_lt room)

/-- The consumer that loads the head behind the first chunk goes on to its size. -/
theorem afterLoadingHead_first
    {ringbuf : Ringbuf}
    (size : ringbuf.size = 2 ^ exponent)
    (long : 5 ≤ exponent) :
    afterLoadingHead ringbuf 8 0 = .sizing 0 := by
  have room : 8 < 2 ^ exponent :=
    calc
      8 < 2 ^ 5 := by decide
      _ ≤ 2 ^ exponent := Nat.pow_le_pow_right (by decide) long
  have space : readableSpace ringbuf 8 0 = 8 := by
    rw [readableSpace, if_pos (by decide)]
    decide
  simp only [afterLoadingHead, space, size]
  rw [if_pos (by decide), show add 0 8 = 8 by decide, if_neg (by omega)]

/-- The consumer loads the size of the first chunk, which races with the store to it. -/
theorem relaxed_races
    (small : exponent < 64)
    (long : 5 ≤ exponent) :
    ∃ system,
      Reachable OrderedStep
          (OrderedSystem.initial (ringbufInit memory (2 ^ exponent)) false) system ∧
        system.raced = true := by
  have start :
      Reachable OrderedStep
        (OrderedSystem.initial (ringbufInit memory (2 ^ exponent)) false)
        (OrderedSystem.initial (ringbufInit memory (2 ^ exponent)) false) :=
    .refl
  have requested := start.next
    (.producer (@OrderedProducerStep.loadHead _ 0 (Or.inl rfl) (by decide)))
  have reserved := requested.next
    (.producer (@OrderedProducerStep.loadTail _ 0 0 0 0 rfl ⟨Nat.le_refl 0, rfl⟩))
  simp only [show (OrderedSystem.initial (ringbufInit memory (2 ^ exponent)) false).ringbuf =
    ringbufInit memory (2 ^ exponent) from rfl, writeRequest_fresh small long] at reserved
  have advancing := reserved.next
    (.producer (@OrderedProducerStep.advance _ 0 8 0 rfl (Nat.le_refl 0) (Nat.zero_le _)))
  have sized := advancing.next (.producer (.store rfl))
  have marked := sized.next (.producer (.store rfl))
  have published := marked.next (.producer (.publish rfl))
  have looked := published.next (.consumer (.loadTail rfl))
  have head := @advancedHead_fresh memory exponent small long
  have stored :
      [0, advancedHead ((ringbufInit memory (2 ^ exponent)).reserve (2 ^ exponent - 1) 0) 0 0][1]? =
        some 8 :=
    congrArg some head
  have found := looked.next
    (.consumer (@OrderedConsumerStep.loadHead _ 1 8 0 rfl ⟨Nat.zero_le 1, by exact stored⟩))
  have held := found.next
    (.consumer (@OrderedConsumerStep.readSize _ 0 (afterLoadingHead_first rfl long)))
  exact ⟨_, held, rfl⟩

end Race

/-! ## Rings that hold no chunk -/

/-- A ring to which the producer has published nothing and in which the consumer found nothing. -/
structure Unused (system : OrderedSystem) : Prop where
  power : ∃ exponent, exponent < 5 ∧ system.ringbuf.size = 2 ^ exponent
  mask : system.ringbuf.mask = system.ringbuf.size - 1
  heads : system.heads.stores = [0]
  tails : system.tails.stores = [0]
  head : system.ringbuf.head = 0
  tail : system.ringbuf.tail = 0
  raced : system.raced = false
  producer : system.producer = .idle ∨ ∃ minimum, system.producer = .loadedHead minimum 0
  consumer : system.consumer = .idle ∨ system.consumer = .loadedTail 0

/-- A load of an index that was never stored to. -/
theorem mayLoad_initial
    {atomic : Atomic Nat}
    {index value : Nat}
    (stores : atomic.stores = [0])
    (may : atomic.MayLoad index value) :
    value = 0 := by
  have stored := List.mem_of_getElem? may.stored
  rw [stores] at stored
  exact List.mem_singleton.mp stored

/-- A ring of at most 16 bytes refuses every request. -/
theorem Unused.refused
    {system : OrderedSystem}
    (unused : Unused system)
    (minimum : Nat) :
    ringbufWriteRequestMax system.ringbuf 0 0 minimum = (system.ringbuf.reserve 0 0, none) := by
  obtain ⟨exponent, short, size⟩ := unused.power
  have sound : Sound system.ringbuf := by
    refine ⟨⟨exponent, by omega, size⟩, unused.mask, ?_, ?_, ?_, ?_⟩
    · simp [unused.head]
    · simp [unused.tail]
    · simp [unused.head, size]
    · simp [unused.tail, size]
  have atMost : system.ringbuf.size ≤ 16 := by
    rw [size]
    calc
      2 ^ exponent ≤ 2 ^ 4 := Nat.pow_le_pow_right (by decide) (Nat.le_of_lt_succ short)
      _ = 16 := by decide
  have request := writeRequest_eq sound minimum
  rw [unused.head, unused.tail, if_neg (Nat.lt_irrefl 0), if_pos rfl,
    if_neg (by omega)] at request
  exact request

/-- No step uses a ring that is too short. -/
theorem Unused.step
    {before after : OrderedSystem}
    {role : Role}
    (unused : Unused before)
    (step : OrderedStep before role after) :
    Unused after := by
  have producer := unused.producer
  have consumer := unused.consumer
  cases step with
  | producer step =>
      cases step with
      | loadHead _ _ =>
          exact { unused with producer := Or.inr ⟨_, by rw [unused.head]⟩ }
      | @loadTail minimum head index tail here may =>
          obtain rfl := mayLoad_initial unused.tails may
          rw [here] at producer
          obtain ⟨_, same⟩ := producer.resolve_left (by simp)
          obtain rfl : head = 0 := (Producer.loadedHead.inj same).2
          rw [unused.refused minimum]
          exact { unused with producer := Or.inl rfl }
      | fill here _ _ =>
          rw [here] at producer
          simp at producer
      | advance here _ _ =>
          rw [here] at producer
          simp at producer
      | store here =>
          rw [here] at producer
          simp at producer
      | publish here =>
          rw [here] at producer
          simp at producer
  | consumer step =>
      cases step with
      | loadTail here =>
          exact { unused with consumer := Or.inr (by rw [unused.tail]) }
      | @loadHead index head tail here may =>
          obtain rfl := mayLoad_initial unused.heads may
          rw [here] at consumer
          obtain rfl : tail = 0 := by simpa using consumer
          have nothing : readableSpace before.ringbuf 0 0 = 0 := by
            obtain ⟨exponent, short, size⟩ := unused.power
            have small : 2 ^ exponent < words := Nat.pow_lt_pow_right (by decide) (by omega)
            have power := Nat.and_two_pow_sub_one_eq_mod (2 ^ exponent) exponent
            simp [readableSpace, unused.mask, size, sub_of_le, add_of_lt, small, power]
          have found : afterLoadingHead before.ringbuf 0 0 = .idle := by
            simp [afterLoadingHead, nothing]
          exact { unused with consumer := Or.inl found }
      | testGap here =>
          rw [here] at consumer
          simp at consumer
      | skipGap here =>
          rw [here] at consumer
          simp at consumer
      | readSize here =>
          rw [here] at consumer
          simp at consumer
      | readByte here _ =>
          rw [here] at consumer
          simp at consumer
      | finish here _ =>
          rw [here] at consumer
          simp at consumer
      | reloadTail here =>
          rw [here] at consumer
          simp at consumer
      | rereadSize here =>
          rw [here] at consumer
          simp at consumer
      | storeTail here =>
          rw [here] at consumer
          simp at consumer

/-- A fresh ring that is too short. -/
theorem unused_initial
    {memory : Ringbuf}
    {exponent : Nat}
    {releaseAndAcquire : Bool}
    (short : exponent < 5) :
    Unused (OrderedSystem.initial (ringbufInit memory (2 ^ exponent)) releaseAndAcquire) where
  power := ⟨exponent, short, rfl⟩
  mask :=
    sub_of_le (Nat.pow_lt_pow_right (by decide) (by omega)) (Nat.two_pow_pos exponent)
  heads := rfl
  tails := rfl
  head := rfl
  tail := rfl
  raced := rfl
  producer := Or.inl rfl
  consumer := Or.inl rfl

/--
The ring is free of races in every run exactly when `ringbuf_init` was asked for release and
acquire, or when no request can succeed.
-/
theorem never_races_iff
    {memory : Ringbuf}
    {exponent : Nat}
    {releaseAndAcquire : Bool}
    (small : exponent < 64) :
    (∀ system,
        Reachable OrderedStep
          (OrderedSystem.initial (ringbufInit memory (2 ^ exponent)) releaseAndAcquire) system →
        system.raced = false) ↔
      releaseAndAcquire = true ∨ exponent < 5 := by
  constructor
  · intro free
    by_contra neither
    obtain ⟨relaxed, long⟩ := not_or.mp neither
    rw [Bool.not_eq_true] at relaxed
    subst relaxed
    obtain ⟨system, reachable, raced⟩ :=
      @relaxed_races memory exponent small (Nat.le_of_not_lt long)
    simp [free system reachable] at raced
  · rintro (rfl | short) system reachable
    · exact (raceFree_reachable small reachable).raced
    · exact (reachable.invariant (unused_initial short) (fun unused step => unused.step step)).raced

/-- The smallest ring that holds a chunk, with relaxed orders. -/
theorem never_races_iff_relaxed :
    ∃ system,
      Reachable OrderedStep
          (OrderedSystem.initial (ringbufInit smallRing (2 ^ 5)) false) system ∧
        system.raced = true := by
  by_contra none
  have free := (@never_races_iff smallRing 5 false (by decide)).mp
  have safe := free (by
    intro system reachable
    rw [← Bool.not_eq_true]
    exact fun raced => none ⟨system, reachable, raced⟩)
  simp at safe

end Sysprog.ChunkRing
