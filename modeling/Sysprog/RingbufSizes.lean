import Mathlib.Data.Nat.Log
import Mathlib.Order.Bounds.Defs
import Sysprog.FuelLoop
import Sysprog.RingbufHistory

namespace Sysprog.ChunkRing

open FuelLoop MachineWord

/-!
# Setting up a ring

`ringbuf_body_size` doubles a size until it reaches the requested minimum.  Up to half of
the address space this ends at the next power of two, which masking an index relies on.
Beyond it the doubling shifts the last bit out, and the loop goes on with zero.
-/

/-- `sizeof(ringbuf_t)`: four sizes, two memory orders of four bytes and the two indices. -/
def sizeofRingbuf : Nat :=
  4 * 8 + 2 * 4 + 2 * 8

/-- The loop of `ringbuf_body_size`. -/
def bodySizeRound (minimum size : Nat) : Round Nat Nat :=
  if size < minimum then
    .again (shiftLeft size 1)
  else
    .leave size

/-- `ringbuf_body_size`. -/
def ringbufBodySize (fuel minimum : Nat) : Option Nat :=
  loop (bodySizeRound minimum) fuel 1

/-- The `total_size` of `ringbuf_new` and `ringbuf_shm_init`. -/
def totalSize (bodySize : Nat) : Nat :=
  add sizeofRingbuf bodySize

/--
`ringbuf_new`; `posixMemalign` gives memory of the size it is asked for, or `NULL`.  The
call of `mlock`, whose answer is ignored, is left out.
-/
def ringbufNew
    (fuel minimum : Nat)
    (posixMemalign : Nat → Option Ringbuf) : Option (Option Ringbuf) :=
  (ringbufBodySize fuel minimum).map fun bodySize =>
    (posixMemalign (totalSize bodySize)).map fun ringbuf => ringbufInit ringbuf bodySize

/-- What the system answers to `ringbuf_shm_init`, call by call. -/
structure ShmAnswers where
  strdup : Bool
  shmOpenExclusive : Option Nat
  shmOpen : Option Nat
  ftruncate : Int → Bool
  mmap : Nat → Option Ringbuf

/-- `ringbuf_shm_t`; what the call does not hold is `none`. -/
structure RingbufShm where
  name : Option (List UInt8)
  fd : Option Nat
  ringbuf : Option Ringbuf

/-- The return value and the structure after a failure, which gives everything back. -/
def shmFailure : Int × RingbufShm :=
  (-1, { name := none, fd := none, ringbuf := none })

/-- `ringbuf_shm_init` behind the two sizes; `ftruncate` takes its size as an `off_t`. -/
def shmInitSized
    (answers : ShmAnswers)
    (name : List UInt8)
    (bodySize total : Nat) : Int × RingbufShm :=
  if answers.strdup = false then
    shmFailure
  else
    let isFirst := answers.shmOpenExclusive.isSome
    match answers.shmOpenExclusive.or answers.shmOpen with
    | none => shmFailure
    | some fd =>
        if answers.ftruncate ((total : Int).bmod (2 ^ 64)) = false then
          shmFailure
        else
          match answers.mmap total with
          | none => shmFailure
          | some ringbuf =>
              let ringbuf := if isFirst then ringbufInit ringbuf bodySize else ringbuf
              (0, { name := some name, fd := some fd, ringbuf := some ringbuf })

/-- `ringbuf_shm_init`. -/
def ringbufShmInit
    (fuel minimum : Nat)
    (answers : ShmAnswers)
    (name : List UInt8) : Option (Int × RingbufShm) :=
  (ringbufBodySize fuel minimum).map fun bodySize =>
    shmInitSized answers name bodySize (totalSize bodySize)

/-! ## The loop -/

/-- Up to half of the address space, every round comes one power of two closer. -/
private theorem bodySizeRound_ok
    {minimum : Nat}
    (small : minimum ≤ 2 ^ 63)
    (bound size : Nat)
    (doubled : ∃ exponent, exponent + bound = Nat.clog 2 minimum ∧ size = 2 ^ exponent) :
    RoundOk
      (fun bound size =>
        ∃ exponent, exponent + bound = Nat.clog 2 minimum ∧ size = 2 ^ exponent)
      (fun size => size = 2 ^ Nat.clog 2 minimum) bound (bodySizeRound minimum size) := by
  obtain ⟨exponent, remaining, rfl⟩ := doubled
  have inside : Nat.clog 2 minimum ≤ 63 := Nat.clog_le_of_le_pow small
  by_cases short : 2 ^ exponent < minimum
  · have below : exponent < Nat.clog 2 minimum :=
      (Nat.lt_clog_iff_pow_lt (by decide)).mpr short
    simp only [bodySizeRound, if_pos short, RoundOk]
    exact ⟨bound - 1, by omega, exponent + 1, by omega, shiftLeft_pow (by omega)⟩
  · have reached : Nat.clog 2 minimum ≤ exponent :=
      Nat.clog_le_of_le_pow (Nat.le_of_not_lt short)
    simp only [bodySizeRound, if_neg short, RoundOk]
    rw [show exponent = Nat.clog 2 minimum by omega]

/-- Up to half of the address space, the loop returns the next power of two. -/
theorem bodySize_eq
    {fuel minimum : Nat}
    (small : minimum ≤ 2 ^ 63)
    (enough : 63 < fuel) :
    ringbufBodySize fuel minimum = some (2 ^ Nat.clog 2 minimum) := by
  have inside : Nat.clog 2 minimum ≤ 63 := Nat.clog_le_of_le_pow small
  obtain ⟨size, returned, reached⟩ :=
    loop_correct _ _ (bodySizeRound_ok small) ⟨0, Nat.zero_add _, rfl⟩
      (Nat.lt_of_le_of_lt inside enough)
  rw [reached] at returned
  exact returned

/-- The values that the doubling takes: the powers of two, and zero behind the last one. -/
def Doubled (size : Nat) : Prop :=
  size = 0 ∨ ∃ exponent, exponent < 64 ∧ size = 2 ^ exponent

/-- Doubling stays among these values. -/
theorem Doubled.shiftLeft {size : Nat} (doubled : Doubled size) :
    Doubled (shiftLeft size 1) := by
  rcases doubled with rfl | ⟨exponent, small, rfl⟩
  · exact Or.inl rfl
  · by_cases last : exponent = 63
    · subst last
      exact Or.inl shiftLeft_last
    · exact Or.inr ⟨exponent + 1, by omega, shiftLeft_pow (by omega)⟩

/-- None of them exceeds half of the address space. -/
theorem Doubled.le {size : Nat} (doubled : Doubled size) : size ≤ 2 ^ 63 := by
  rcases doubled with rfl | ⟨exponent, small, rfl⟩
  · exact Nat.zero_le _
  · exact Nat.pow_le_pow_right (by decide) (by omega)

/-- Beyond half of the address space, the loop never ends. -/
theorem bodySize_stuck
    {minimum : Nat}
    (large : 2 ^ 63 < minimum)
    (fuel : Nat) :
    ringbufBodySize fuel minimum = none := by
  have keeps : ∀ size, Doubled size →
      RoundKeeps Doubled (fun _ => False) (bodySizeRound minimum size) := by
    intro size doubled
    have short : size < minimum := Nat.lt_of_le_of_lt doubled.le large
    simp only [bodySizeRound, if_pos short, RoundKeeps]
    exact doubled.shiftLeft
  rw [Option.eq_none_iff_forall_ne_some]
  intro size returned
  exact loop_returns_post Doubled _ keeps (Or.inr ⟨0, by decide, rfl⟩) returned

/-- If the loop ends at all, the minimum is small enough and the size the next power of two. -/
theorem bodySize_of_returned
    {fuel minimum size : Nat}
    (returned : ringbufBodySize fuel minimum = some size) :
    minimum ≤ 2 ^ 63 ∧ size = 2 ^ Nat.clog 2 minimum := by
  have small : minimum ≤ 2 ^ 63 := by
    by_contra large
    rw [bodySize_stuck (Nat.lt_of_not_le large)] at returned
    contradiction
  have later : ringbufBodySize (fuel + 64) minimum = some size :=
    loop_more returned (Nat.le_add_right fuel 64)
  rw [bodySize_eq small (by omega)] at later
  exact ⟨small, (Option.some.inj later).symm⟩

/-! ## What the rest of the ring relies on -/

/--
The size for a minimum: the loop ends with it, it is the least power of two that is large
enough, the mask made from it is all ones below it, and the total size has not wrapped.
-/
structure RoundsUp (minimum size : Nat) : Prop where
  returns : ∃ rounds, ∀ fuel, rounds < fuel → ringbufBodySize fuel minimum = some size
  least : IsLeast {power | minimum ≤ power ∧ ∃ exponent, power = 2 ^ exponent} size
  mask :
    ∀ (ringbuf : Ringbuf) (bit : Nat),
      (ringbufInit ringbuf size).mask.testBit bit = decide (2 ^ bit < size)
  total : totalSize size = sizeofRingbuf + size

/-- The next power of two is least among those that are large enough. -/
private theorem clog_isLeast (minimum : Nat) :
    IsLeast {power | minimum ≤ power ∧ ∃ exponent, power = 2 ^ exponent}
      (2 ^ Nat.clog 2 minimum) := by
  refine ⟨⟨Nat.le_pow_clog (by decide) minimum, _, rfl⟩, ?_⟩
  rintro power ⟨enough, exponent, rfl⟩
  exact Nat.pow_le_pow_right (by decide) (Nat.clog_le_of_le_pow enough)

/-- The mask that `ringbuf_init` makes from a power of two has the bits below it. -/
theorem ringbufInit_mask
    {exponent : Nat}
    (small : exponent < 64)
    (ringbuf : Ringbuf)
    (bit : Nat) :
    (ringbufInit ringbuf (2 ^ exponent)).mask.testBit bit = decide (2 ^ bit < 2 ^ exponent) := by
  have mask : (ringbufInit ringbuf (2 ^ exponent)).mask = 2 ^ exponent - 1 :=
    sub_of_le (Nat.pow_lt_pow_right (by decide) small) (Nat.two_pow_pos exponent)
  rw [mask, Nat.testBit_two_pow_sub_one, decide_eq_decide]
  exact (Nat.pow_lt_pow_iff_right (by decide)).symm

/-- The header still fits in the address space behind half of it. -/
theorem totalSize_eq
    {size : Nat}
    (small : size ≤ 2 ^ 63) :
    totalSize size = sizeofRingbuf + size := by
  apply add_of_lt
  have narrow : sizeofRingbuf + 2 ^ 63 < words := by
    decide
  omega

/-- A size cannot be rounded up beyond half of the address space. -/
private theorem not_roundsUp
    {minimum : Nat}
    (large : 2 ^ 63 < minimum) :
    ¬ ∃ size, RoundsUp minimum size := by
  rintro ⟨size, rounded⟩
  obtain ⟨rounds, returns⟩ := rounded.returns
  have small := (bodySize_of_returned (returns (rounds + 1) (Nat.lt_succ_self rounds))).1
  omega

/--
Exactly when `ringbuf_body_size` returns the least power of two that is at least the
minimum, with a mask and a total size to rely on: up to half of the address space.
-/
theorem bodySize_rounds_up_iff (minimum : Nat) :
    (∃ size, RoundsUp minimum size) ↔ minimum ≤ 2 ^ 63 := by
  constructor
  · intro rounded
    by_contra large
    exact not_roundsUp (Nat.lt_of_not_le large) rounded
  · intro small
    have inside : Nat.clog 2 minimum ≤ 63 := Nat.clog_le_of_le_pow small
    have half : 2 ^ Nat.clog 2 minimum ≤ 2 ^ 63 :=
      Nat.pow_le_pow_right (by decide) inside
    refine ⟨2 ^ Nat.clog 2 minimum, ⟨63, fun fuel enough => bodySize_eq small enough⟩,
      clog_isLeast minimum, ?_, totalSize_eq half⟩
    intro ringbuf bit
    exact ringbufInit_mask (Nat.lt_succ_of_le inside) ringbuf bit

/-- A minimum just beyond half of the address space is never reached. -/
theorem bodySize_never_returns :
    (∀ fuel, ringbufBodySize fuel (2 ^ 63 + 1) = none) ∧
      ¬ ∃ size, RoundsUp (2 ^ 63 + 1) size :=
  ⟨bodySize_stuck (by decide), not_roundsUp (by decide)⟩

/-- `ringbuf_new` then asks for as much memory as header and body take. -/
theorem RoundsUp.ringbufNew_eq
    {minimum size : Nat}
    (rounded : RoundsUp minimum size)
    (posixMemalign : Nat → Option Ringbuf) :
    ∃ rounds, ∀ fuel, rounds < fuel →
      ringbufNew fuel minimum posixMemalign =
        some ((posixMemalign (sizeofRingbuf + size)).map fun ringbuf =>
          ringbufInit ringbuf size) := by
  obtain ⟨rounds, returns⟩ := rounded.returns
  refine ⟨rounds, fun fuel enough => ?_⟩
  rw [ringbufNew, returns fuel enough, Option.map_some, rounded.total]

/-- `ringbuf_shm_init` then truncates and maps as much as header and body take. -/
theorem RoundsUp.ringbufShmInit_eq
    {minimum size : Nat}
    (rounded : RoundsUp minimum size)
    (answers : ShmAnswers)
    (name : List UInt8) :
    ∃ rounds, ∀ fuel, rounds < fuel →
      ringbufShmInit fuel minimum answers name =
        some (shmInitSized answers name size (sizeofRingbuf + size)) := by
  obtain ⟨rounds, returns⟩ := rounded.returns
  refine ⟨rounds, fun fuel enough => ?_⟩
  rw [ringbufShmInit, returns fuel enough, Option.map_some, rounded.total]

/-! ## The rings that are set up -/

section Rings

variable
  {fuel minimum : Nat}
  {ringbuf : Ringbuf}

/-- The two threads may start on every ring made for a size that was rounded up. -/
private theorem delivers_of_returned
    {size : Nat}
    (returned : ringbufBodySize fuel minimum = some size)
    (memory : Ringbuf) :
    Delivers (System.initial (ringbufInit memory size)) (.straight []) := by
  obtain ⟨small, rfl⟩ := bodySize_of_returned returned
  have inside : Nat.clog 2 minimum ≤ 63 := Nat.clog_le_of_le_pow small
  exact delivers_initial (Nat.lt_succ_of_le inside)

/-- The two threads may start on every ring that `ringbuf_new` returns. -/
theorem ringbufNew_delivers
    {posixMemalign : Nat → Option Ringbuf}
    (returned : ringbufNew fuel minimum posixMemalign = some (some ringbuf)) :
    Delivers (System.initial ringbuf) (.straight []) := by
  obtain ⟨size, rounded, allocated⟩ := Option.map_eq_some_iff.mp returned
  obtain ⟨memory, _, rfl⟩ := Option.map_eq_some_iff.mp allocated
  exact delivers_of_returned rounded memory

/--
What a `ringbuf_shm_init` that returns has done: it failed and holds nothing, or it maps the
memory it asked for, and has initialised it if it created the shared object.
-/
theorem shmInitSized_cases
    (answers : ShmAnswers)
    (name : List UInt8)
    (bodySize total : Nat) :
    shmInitSized answers name bodySize total = shmFailure ∨
      ∃ fd memory,
        answers.mmap total = some memory ∧
          shmInitSized answers name bodySize total =
            (0,
              { name := some name
                fd := some fd
                ringbuf :=
                  some
                    (if answers.shmOpenExclusive.isSome then ringbufInit memory bodySize
                      else memory) }) := by
  unfold shmInitSized
  split
  · exact Or.inl rfl
  cases answers.shmOpenExclusive.or answers.shmOpen with
  | none =>
      exact Or.inl rfl
  | some fd =>
      by_cases sized : answers.ftruncate ((total : Int).bmod (2 ^ 64)) = false
      · exact Or.inl (if_pos sized)
      · cases mapped : answers.mmap total with
        | none =>
            exact Or.inl (if_neg sized)
        | some memory =>
            exact Or.inr ⟨fd, memory, rfl, if_neg sized⟩

/-- The two threads may start on the ring of the process that creates the shared object. -/
theorem ringbufShmInit_delivers
    {answers : ShmAnswers}
    {name : List UInt8}
    {status : Int}
    {shm : RingbufShm}
    (creates : answers.shmOpenExclusive.isSome)
    (returned : ringbufShmInit fuel minimum answers name = some (status, shm))
    (mapped : shm.ringbuf = some ringbuf) :
    Delivers (System.initial ringbuf) (.straight []) := by
  obtain ⟨size, rounded, result⟩ := Option.map_eq_some_iff.mp returned
  rcases shmInitSized_cases answers name size (totalSize size) with
    failed | ⟨fd, memory, _, succeeded⟩
  · rw [failed] at result
    obtain rfl := congrArg Prod.snd result
    contradiction
  · rw [succeeded, if_pos creates] at result
    obtain rfl := congrArg Prod.snd result
    obtain rfl := Option.some.inj mapped
    exact delivers_of_returned rounded memory

end Rings

end Sysprog.ChunkRing
