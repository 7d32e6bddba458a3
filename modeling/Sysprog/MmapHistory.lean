import Sysprog.Execution
import Sysprog.MmapAlloc

namespace Sysprog.MmapAlloc

open ByteMemory Execution MachineWord

/-!
# The allocator over whole runs

A program allocates, frees and writes, in any order and with any number of blocks.  Every
block has pages of its own, and freeing it gives back those and no others.
-/

/-! ## Programs -/

/-- A process, and the sizes of the blocks it may use, by their pointers. -/
structure World where
  process : Process
  live : Nat → Option Nat

/-- A byte belongs to the pages of a block. -/
def Within (pageSize ptr size byte : Nat) : Prop :=
  inRange (ptr - headerSize) (mmapSize pageSize size) byte = true

/-- A call, or a write of the program. -/
inductive Op where
  | naiveMalloc (size : Nat) (answer : Option Nat)
  | naiveFree (ptr : Nat)
  | write (byte : Nat) (value : UInt8)

/--
One step of a program: it frees only what it has allocated, or the null pointer, and it
writes to no header.
-/
inductive Step (pageSize : Nat) : World → Op → World → Prop where
  | refused
      {world : World}
      {size : Nat}
      {answer : Option Nat}
      (fits : size + headerSize < words)
      (answers : Answers pageSize world.process (mmapSize pageSize size) answer)
      (null : (naiveMalloc pageSize world.process size answer).2 = none) :
      Step pageSize world (.naiveMalloc size answer)
        { world with process := (naiveMalloc pageSize world.process size answer).1 }
  | allocated
      {world : World}
      {size ptr : Nat}
      {answer : Option Nat}
      (fits : size + headerSize < words)
      (answers : Answers pageSize world.process (mmapSize pageSize size) answer)
      (returned : (naiveMalloc pageSize world.process size answer).2 = some ptr) :
      Step pageSize world (.naiveMalloc size answer)
        { process := (naiveMalloc pageSize world.process size answer).1
          live := Function.update world.live ptr (some size) }
  | freed
      {world : World}
      {ptr : Nat}
      (valid : ptr = 0 ∨ world.live ptr ≠ none) :
      Step pageSize world (.naiveFree ptr)
        { process := naiveFree pageSize world.process ptr
          live := Function.update world.live ptr none }
  | wrote
      {world : World}
      {byte : Nat}
      {value : UInt8}
      (noHeader :
        ∀ ptr size,
          world.live ptr = some size → inRange (ptr - headerSize) headerSize byte = false) :
      Step pageSize world (.write byte value)
        { world with
          process :=
            { world.process with memory := Function.update world.process.memory byte value } }

/-- A process that has allocated nothing. -/
def World.initial (process : Process) : World where
  process := process
  live := fun _ => none

variable {pageSize size ptr : Nat} {process after : Process} {world later : World}
  {answer : Option Nat}

/-! ## One call -/

/-- A block in its pages, behind its header. -/
structure Holds (pageSize : Nat) (process : Process) (ptr size : Nat) : Prop where
  positive : 0 < size
  place : headerSize < ptr
  aligned : pageSize ∣ ptr - headerSize
  room : headerSize + size ≤ mmapSize pageSize size
  pagesStored : read process.memory (ptr - headerSize) 8 = encode 8 (pages pageSize size)
  sizeStored : read process.memory (ptr - headerSize + 8) 8 = encode 8 pageSize
  mapped : ∀ byte, Within pageSize ptr size byte → process.mapped byte = true

/-- `naive_malloc` has made a block of pages that were free. -/
structure Allocated (pageSize : Nat) (process after : Process) (ptr size : Nat) : Prop where
  holds : Holds pageSize after ptr size
  free : ∀ byte, Within pageSize ptr size byte → process.mapped byte = false
  outside :
    ∀ byte,
      ¬ Within pageSize ptr size byte →
      after.mapped byte = process.mapped byte ∧ after.memory byte = process.memory byte
  zeroed : ∀ index, index < size → after.memory (ptr + index) = 0

/-- `naive_malloc` that returns null changes nothing. -/
theorem naiveMalloc_none
    (null : (naiveMalloc pageSize process size answer).2 = none) :
    (naiveMalloc pageSize process size answer).1 = process := by
  rcases Nat.eq_zero_or_pos size with rfl | positive
  · rfl
  · cases answer with
    | none =>
        rw [naiveMalloc, naiveMallocInternal, if_neg (Nat.ne_of_gt positive)]
        rfl
    | some page =>
        rw [naiveMalloc_some positive] at null
        cases null

/-- `naive_malloc` returns a pointer behind the page that it got. -/
theorem naiveMalloc_returned
    (returned : (naiveMalloc pageSize process size answer).2 = some ptr) :
    0 < size ∧ ∃ page, answer = some page ∧ ptr = page + headerSize := by
  rcases Nat.eq_zero_or_pos size with rfl | positive
  · cases returned
  · cases answer with
    | none =>
        rw [naiveMalloc, naiveMallocInternal, if_neg (Nat.ne_of_gt positive)] at returned
        cases returned
    | some page =>
        rw [naiveMalloc_some positive] at returned
        exact ⟨positive, page, rfl, (Option.some.inj returned).symm⟩

/-- What is mapped behind an answer of `mmap`. -/
theorem naiveMalloc_mapped
    {page : Nat}
    (positive : 0 < size)
    (whole : wholePages pageSize (mmapSize pageSize size) = mmapSize pageSize size) :
    (naiveMalloc pageSize process size (some page)).1.mapped =
      fun byte => process.mapped byte || inRange page (mmapSize pageSize size) byte := by
  rw [naiveMalloc_some positive]
  simp only [mmap, whole]

/-- Behind the header are zeroes, and outside of the pages is what was there before. -/
theorem naiveMalloc_memory
    {page byte : Nat}
    (positive : 0 < size)
    (whole : wholePages pageSize (mmapSize pageSize size) = mmapSize pageSize size)
    (outside : byte < page ∨ page + headerSize ≤ byte) :
    (naiveMalloc pageSize process size (some page)).1.memory byte =
      if inRange page (mmapSize pageSize size) byte then 0 else process.memory byte := by
  rw [headerSize] at outside
  rw [naiveMalloc_some positive]
  dsimp only
  rw [write_outside (by rw [length_encode]; omega), write_outside (by rw [length_encode]; omega)]
  simp only [mmap, whole]

/-- `naive_malloc` that returns a pointer has made a block. -/
theorem naiveMalloc_allocated
    (large : headerSize < pageSize)
    (divides : pageSize ∣ words)
    (fits : size + headerSize < words)
    (answers : Answers pageSize process (mmapSize pageSize size) answer)
    (returned : (naiveMalloc pageSize process size answer).2 = some ptr) :
    Allocated pageSize process (naiveMalloc pageSize process size answer).1 ptr size := by
  obtain ⟨positive, page, rfl, rfl⟩ := naiveMalloc_returned returned
  obtain ⟨some, somewhere, aligned, _, free⟩ := answers
  have whole := wholePages_of_dvd (Nat.zero_lt_of_lt large) (@mmapSize_dvd pageSize size divides)
  rw [whole] at free
  have room : headerSize + size ≤ mmapSize pageSize size := by
    rcases mmapSize_of_lt large divides fits with none | room
    · omega
    · exact room
  have back : page + headerSize - headerSize = page := Nat.add_sub_cancel _ _
  have mapped := @naiveMalloc_mapped pageSize size process page positive whole
  refine ⟨⟨positive, by omega, by rwa [back], room, ?_, ?_, ?_⟩, ?_, ?_, ?_⟩
  · rw [naiveMalloc_some positive, back, read_write_disjoint (.inl (Nat.le_refl _)),
      read_write_of_length (length_encode 8 _)]
  · rw [naiveMalloc_some positive, back, read_write_of_length (length_encode 8 _)]
  · intro byte inside
    rw [mapped]
    exact Bool.or_eq_true_iff.mpr (Or.inr (back ▸ inside))
  · intro byte inside
    exact free byte (back ▸ inside)
  · intro byte outside
    rw [Within, back, Bool.not_eq_true] at outside
    have apart := outside
    rw [inRange, decide_eq_false_iff_not] at apart
    constructor
    · simp only [mapped, outside, Bool.or_false]
    · rw [naiveMalloc_memory positive whole (by omega), outside]
      rfl
  · intro index inside
    have isWithin :
        inRange page (mmapSize pageSize size) (page + headerSize + index) = true := by
      rw [inRange, decide_eq_true_iff]
      omega
    rw [naiveMalloc_memory positive whole (Or.inr (Nat.le_add_right ..)), isWithin, if_pos rfl]

/-- `naive_free` gives back the pages of a block and changes no byte. -/
theorem naiveFree_released
    (large : headerSize < pageSize)
    (narrow : pageSize < words)
    (divides : pageSize ∣ words)
    (holds : Holds pageSize process ptr size) :
    (naiveFree pageSize process ptr).memory = process.memory ∧
      ∀ byte,
        (naiveFree pageSize process ptr).mapped byte = true ↔
          process.mapped byte = true ∧ ¬ Within pageSize ptr size byte := by
  have place := holds.place
  have room := holds.room
  have positive := holds.positive
  have whole := wholePages_of_dvd (Nat.zero_lt_of_lt large) (@mmapSize_dvd pageSize size divides)
  have first : decode (read process.memory (ptr - headerSize) 8) = pages pageSize size := by
    rw [holds.pagesStored]
    exact decode_encode_of_lt (pages_lt large).2
  have second : decode (read process.memory (ptr - headerSize + 8) 8) = pageSize := by
    rw [holds.sizeStored]
    exact decode_encode_of_lt narrow
  have freed :
      naiveFree pageSize process ptr =
        munmap pageSize process (ptr - headerSize) (mmapSize pageSize size) := by
    rw [naiveFree, if_neg (by omega), naiveFreeInternal]
    simp only [first, second]
    rfl
  rw [freed, munmap, if_pos ⟨by omega, holds.aligned⟩]
  refine ⟨rfl, fun byte => ?_⟩
  simp only [whole, Bool.and_eq_true, Bool.not_eq_true', Within, Bool.not_eq_true]

/-! ## All blocks -/

/-- The header of a block lies in its pages. -/
theorem Holds.within_of_header
    {byte : Nat}
    (holds : Holds pageSize process ptr size)
    (header : inRange (ptr - headerSize) headerSize byte = true) :
    Within pageSize ptr size byte := by
  have room := holds.room
  rw [inRange, decide_eq_true_iff] at header
  rw [Within, inRange, decide_eq_true_iff]
  omega

/-- The data of a block lies in its pages. -/
theorem Holds.within_of_data
    {index : Nat}
    (holds : Holds pageSize process ptr size)
    (inside : index < size) :
    Within pageSize ptr size (ptr + index) := by
  have room := holds.room
  have place := holds.place
  rw [Within, inRange, decide_eq_true_iff]
  omega

/-- A block stays one where its header and its pages are left alone. -/
theorem Holds.congr
    (holds : Holds pageSize process ptr size)
    (header :
      ∀ byte,
        inRange (ptr - headerSize) headerSize byte = true →
        after.memory byte = process.memory byte)
    (mapped : ∀ byte, Within pageSize ptr size byte → after.mapped byte = true) :
    Holds pageSize after ptr size := by
  have untouched :
      ∀ offset,
        offset < headerSize →
        after.memory (ptr - headerSize + offset) = process.memory (ptr - headerSize + offset) := by
    intro offset inside
    apply header
    rw [inRange, decide_eq_true_iff]
    omega
  refine ⟨holds.positive, holds.place, holds.aligned, holds.room, ?_, ?_, mapped⟩
  · rw [← holds.pagesStored]
    exact read_congr fun index inside => untouched index (by rw [headerSize]; omega)
  · rw [← holds.sizeStored]
    refine read_congr fun index inside => ?_
    rw [Nat.add_assoc]
    exact untouched (8 + index) (by rw [headerSize]; omega)

/-- What every run keeps of the blocks, next to what was mapped at its start. -/
structure Kept (pageSize : Nat) (start : Process) (world : World) : Prop where
  holds : ∀ ptr size, world.live ptr = some size → Holds pageSize world.process ptr size
  fresh :
    ∀ ptr size byte,
      world.live ptr = some size → Within pageSize ptr size byte → start.mapped byte = false
  apart :
    ∀ ptr size other otherSize byte,
      world.live ptr = some size →
      world.live other = some otherSize →
      Within pageSize ptr size byte →
      Within pageSize other otherSize byte →
      ptr = other
  own :
    ∀ byte,
      world.process.mapped byte = true ↔
        start.mapped byte = true ∨
          ∃ ptr size, world.live ptr = some size ∧ Within pageSize ptr size byte

variable {start : Process}

/-- At first there is no block. -/
theorem Kept.initially : Kept pageSize start (World.initial start) where
  holds := by
    intro ptr size live
    cases live
  fresh := by
    intro ptr size byte live
    cases live
  apart := by
    intro ptr size other otherSize byte live
    cases live
  own := by
    intro byte
    constructor
    · exact Or.inl
    · rintro (mapped | ⟨ptr, size, live, _⟩)
      · exact mapped
      · cases live

/-- The pages of a live block are mapped. -/
theorem Kept.mapped
    {byte : Nat}
    (kept : Kept pageSize start world)
    (live : world.live ptr = some size)
    (within : Within pageSize ptr size byte) :
    world.process.mapped byte = true :=
  (kept.holds ptr size live).mapped byte within

/-- A new block has a pointer that no live block has. -/
theorem Kept.not_live
    (kept : Kept pageSize start world)
    (made : Allocated pageSize world.process after ptr size) :
    world.live ptr = none := by
  by_contra some
  obtain ⟨other, live⟩ := Option.ne_none_iff_exists'.mp some
  have first : inRange (ptr - headerSize) headerSize (ptr - headerSize) = true := by
    rw [inRange, decide_eq_true_iff, headerSize]
    omega
  have free := made.free _ (made.holds.within_of_header first)
  rw [kept.mapped live ((kept.holds ptr other live).within_of_header first)] at free
  cases free

/-- A new block has no byte of a live one. -/
theorem Kept.not_within
    {byte other otherSize : Nat}
    (kept : Kept pageSize start world)
    (made : Allocated pageSize world.process after ptr size)
    (live : world.live other = some otherSize)
    (within : Within pageSize other otherSize byte) :
    ¬ Within pageSize ptr size byte := by
  intro both
  have free := made.free byte both
  rw [kept.mapped live within] at free
  cases free

/-- A new block joins the others. -/
theorem Kept.allocated
    (kept : Kept pageSize start world)
    (made : Allocated pageSize world.process after ptr size) :
    Kept pageSize start
      { process := after, live := Function.update world.live ptr (some size) } := by
  -- A block is the new one, or another one that was live before.
  have blocks :
      ∀ {other otherSize},
        Function.update world.live ptr (some size) other = some otherSize →
        (other = ptr ∧ otherSize = size) ∨ (other ≠ ptr ∧ world.live other = some otherSize) := by
    intro other otherSize live
    by_cases same : other = ptr
    · subst other
      rw [Function.update_self] at live
      exact Or.inl ⟨rfl, (Option.some.inj live).symm⟩
    · rw [Function.update_of_ne same] at live
      exact Or.inr ⟨same, live⟩
  constructor
  · intro other otherSize live
    obtain ⟨rfl, rfl⟩ | ⟨_, live⟩ := blocks live
    · exact made.holds
    · have holds := kept.holds other otherSize live
      refine holds.congr (fun byte header => ?_) (fun byte within => ?_)
      · exact (made.outside byte (kept.not_within made live (holds.within_of_header header))).2
      · rw [(made.outside byte (kept.not_within made live within)).1]
        exact kept.mapped live within
  · intro other otherSize byte live within
    obtain ⟨rfl, rfl⟩ | ⟨_, live⟩ := blocks live
    · by_contra before
      have mapped := (kept.own byte).mpr (Or.inl ((Bool.not_eq_false _).mp before))
      rw [made.free byte within] at mapped
      cases mapped
    · exact kept.fresh other otherSize byte live within
  · intro first firstSize second secondSize byte liveFirst liveSecond inFirst inSecond
    obtain ⟨rfl, rfl⟩ | ⟨_, oldFirst⟩ := blocks liveFirst
    · obtain ⟨rfl, rfl⟩ | ⟨_, oldSecond⟩ := blocks liveSecond
      · rfl
      · exact absurd inFirst (kept.not_within made oldSecond inSecond)
    · obtain ⟨rfl, rfl⟩ | ⟨_, oldSecond⟩ := blocks liveSecond
      · exact absurd inSecond (kept.not_within made oldFirst inFirst)
      · exact kept.apart first firstSize second secondSize byte oldFirst oldSecond inFirst inSecond
  · intro byte
    dsimp only
    by_cases within : Within pageSize ptr size byte
    · refine iff_of_true (made.holds.mapped byte within) (Or.inr ⟨ptr, size, ?_, within⟩)
      exact Function.update_self ..
    · rw [(made.outside byte within).1, kept.own byte]
      refine or_congr_right ⟨?_, ?_⟩
      · rintro ⟨other, otherSize, live, inOther⟩
        have different : other ≠ ptr := by
          rintro rfl
          rw [kept.not_live made] at live
          cases live
        exact ⟨other, otherSize, by rwa [Function.update_of_ne different], inOther⟩
      · rintro ⟨other, otherSize, live, inOther⟩
        obtain ⟨rfl, rfl⟩ | ⟨_, live⟩ := blocks live
        · exact absurd inOther within
        · exact ⟨other, otherSize, live, inOther⟩

/-- A block that is freed leaves the others. -/
theorem Kept.freed
    (large : headerSize < pageSize)
    (narrow : pageSize < words)
    (divides : pageSize ∣ words)
    (kept : Kept pageSize start world)
    (live : world.live ptr = some size) :
    Kept pageSize start
      { process := naiveFree pageSize world.process ptr
        live := Function.update world.live ptr none } := by
  obtain ⟨sameMemory, released⟩ :=
    naiveFree_released large narrow divides (kept.holds ptr size live)
  -- A block that is still live is another one, and was live before.
  have still :
      ∀ {other otherSize},
        Function.update world.live ptr none other = some otherSize ↔
          other ≠ ptr ∧ world.live other = some otherSize := by
    intro other otherSize
    by_cases same : other = ptr
    · subst other
      simp
    · simp [same]
  have away :
      ∀ {other otherSize byte},
        other ≠ ptr →
        world.live other = some otherSize →
        Within pageSize other otherSize byte →
        ¬ Within pageSize ptr size byte :=
    fun different others within both =>
      different (kept.apart _ _ _ _ _ others live within both)
  constructor
  · intro other otherSize others
    obtain ⟨different, others⟩ := still.mp others
    refine (kept.holds other otherSize others).congr (fun byte _ => ?_) (fun byte within => ?_)
    · exact congrFun sameMemory byte
    · exact (released byte).mpr ⟨kept.mapped others within, away different others within⟩
  · intro other otherSize byte others
    exact kept.fresh other otherSize byte (still.mp others).2
  · intro first firstSize second secondSize byte liveFirst liveSecond
    exact kept.apart first firstSize second secondSize byte (still.mp liveFirst).2
      (still.mp liveSecond).2
  · intro byte
    dsimp only
    rw [released byte, kept.own byte]
    constructor
    · rintro ⟨before | ⟨other, otherSize, others, within⟩, outside⟩
      · exact Or.inl before
      · refine Or.inr ⟨other, otherSize, still.mpr ⟨?_, others⟩, within⟩
        rintro rfl
        rw [live] at others
        obtain rfl := Option.some.inj others
        exact outside within
    · rintro (before | ⟨other, otherSize, others, within⟩)
      · refine ⟨Or.inl before, fun within => ?_⟩
        rw [kept.fresh ptr size byte live within] at before
        cases before
      · obtain ⟨different, others⟩ := still.mp others
        exact ⟨Or.inr ⟨other, otherSize, others, within⟩, away different others within⟩

/-- A write leaves the blocks what they are. -/
theorem Kept.wrote
    {byte : Nat}
    {value : UInt8}
    (kept : Kept pageSize start world)
    (noHeader :
      ∀ ptr size,
        world.live ptr = some size → inRange (ptr - headerSize) headerSize byte = false) :
    Kept pageSize start
      { world with
        process :=
          { world.process with memory := Function.update world.process.memory byte value } } where
  holds := by
    intro ptr size live
    refine (kept.holds ptr size live).congr (fun cell header => ?_) fun cell within =>
      kept.mapped live within
    refine Function.update_of_ne ?_ ..
    rintro rfl
    rw [noHeader ptr size live] at header
    cases header
  fresh := kept.fresh
  apart := kept.apart
  own := kept.own

/-- The null pointer is no block. -/
theorem Kept.null (kept : Kept pageSize start world) : world.live 0 = none := by
  by_contra some
  obtain ⟨size, live⟩ := Option.ne_none_iff_exists'.mp some
  exact absurd (kept.holds 0 size live).place (Nat.not_lt_zero _)

/-- Freeing the null pointer does nothing. -/
theorem Kept.free_null (kept : Kept pageSize start world) :
    ({ process := naiveFree pageSize world.process 0
       live := Function.update world.live 0 none } : World) = world := by
  rw [← kept.null, Function.update_eq_self, naiveFree, if_pos rfl]

/-- Every step keeps the blocks. -/
theorem Kept.step
    {op : Op}
    (large : headerSize < pageSize)
    (narrow : pageSize < words)
    (divides : pageSize ∣ words)
    (kept : Kept pageSize start world)
    (step : Step pageSize world op later) :
    Kept pageSize start later := by
  cases step with
  | refused fits answers null =>
      rw [naiveMalloc_none null]
      exact kept
  | allocated fits answers returned =>
      exact kept.allocated (naiveMalloc_allocated large divides fits answers returned)
  | @freed ptr valid =>
      cases live : world.live ptr with
      | some size => exact kept.freed large narrow divides live
      | none =>
          obtain rfl : ptr = 0 := valid.resolve_right (not_not_intro live)
          rw [kept.free_null]
          exact kept
  | wrote noHeader =>
      exact kept.wrote noHeader

/-! ## Runs -/

/-- A page size that is a power of two divides the address space. -/
theorem dvd_words
    {exponent : Nat}
    (power : pageSize = 2 ^ exponent)
    (narrow : pageSize < words) :
    pageSize ∣ words := by
  rw [power] at narrow ⊢
  exact Nat.pow_dvd_pow 2 (Nat.le_of_lt ((Nat.pow_lt_pow_iff_right (by decide)).mp narrow))

/-- A step leaves a byte of a block that it neither frees nor writes to. -/
theorem Kept.byte_kept
    {op : Op}
    {index : Nat}
    (large : headerSize < pageSize)
    (narrow : pageSize < words)
    (divides : pageSize ∣ words)
    (kept : Kept pageSize start world)
    (live : world.live ptr = some size)
    (inside : index < size)
    (step : Step pageSize world op later)
    (notFreed : op ≠ .naiveFree ptr)
    (notWritten : ∀ value, op ≠ .write (ptr + index) value) :
    later.live ptr = some size ∧
      later.process.memory (ptr + index) = world.process.memory (ptr + index) := by
  have within := (kept.holds ptr size live).within_of_data inside
  cases step with
  | refused fits answers null =>
      rw [naiveMalloc_none null]
      exact ⟨live, rfl⟩
  | @allocated otherSize other answer fits answers returned =>
      have made := naiveMalloc_allocated large divides fits answers returned
      refine ⟨?_, (made.outside _ (kept.not_within made live within)).2⟩
      have different : ptr ≠ other := by
        rintro rfl
        rw [kept.not_live made] at live
        cases live
      exact (Function.update_of_ne different ..).trans live
  | @freed other valid =>
      have different : ptr ≠ other := by
        rintro rfl
        exact notFreed rfl
      refine ⟨(Function.update_of_ne different ..).trans live, ?_⟩
      cases others : world.live other with
      | some otherSize =>
          exact congrFun
            (naiveFree_released large narrow divides (kept.holds other otherSize others)).1 _
      | none =>
          obtain rfl : other = 0 := valid.resolve_right (not_not_intro others)
          rw [naiveFree, if_pos rfl]
  | @wrote byte value noHeader =>
      refine ⟨live, Function.update_of_ne ?_ ..⟩
      rintro rfl
      exact notWritten value rfl

/-- A run that neither frees a block nor writes to one of its bytes leaves the byte. -/
theorem Kept.run
    {index : Nat}
    {ops : List Op}
    (large : headerSize < pageSize)
    (narrow : pageSize < words)
    (divides : pageSize ∣ words)
    (kept : Kept pageSize start world)
    (live : world.live ptr = some size)
    (inside : index < size)
    (run : Run (Step pageSize) world ops later)
    (notFreed : .naiveFree ptr ∉ ops)
    (notWritten : ∀ value, .write (ptr + index) value ∉ ops) :
    Kept pageSize start later ∧
      later.live ptr = some size ∧
      later.process.memory (ptr + index) = world.process.memory (ptr + index) := by
  induction run with
  | stop =>
      exact ⟨kept, live, rfl⟩
  | @extend ops before after op _ last inductionHypothesis =>
      simp only [List.mem_append, List.mem_singleton, not_or] at notFreed notWritten
      obtain ⟨keptBefore, liveBefore, byteBefore⟩ :=
        inductionHypothesis notFreed.1 fun value => (notWritten value).1
      obtain ⟨liveAfter, byteAfter⟩ :=
        keptBefore.byte_kept large narrow divides liveBefore inside last (Ne.symm notFreed.2)
          fun value => Ne.symm (notWritten value).2
      exact ⟨keptBefore.step large narrow divides last, liveAfter, byteAfter.trans byteBefore⟩

/-- One allocation of a hundred bytes. -/
def oneBlock : World where
  process := (naiveMalloc 4096 blank 100 (some 65536)).1
  live := Function.update (fun _ => none) 65552 (some 100)

/-- The state after one allocation is reached by it. -/
theorem oneBlock_reachable : Reachable (Step 4096) (World.initial blank) oneBlock := by
  refine Reachable.refl.next (.allocated (by decide) ?_ rfl)
  exact ⟨by decide, by decide, by decide, by decide, fun _ _ => rfl⟩

/-- A second one of five thousand bytes, right behind the page of the first. -/
def twoBlocks : World where
  process := (naiveMalloc 4096 oneBlock.process 5000 (some 69632)).1
  live := Function.update oneBlock.live 69648 (some 5000)

/-- The state after two allocations is reached by them. -/
theorem twoBlocks_reachable : Reachable (Step 4096) (World.initial blank) twoBlocks := by
  refine oneBlock_reachable.next (.allocated (by decide) ?_ rfl)
  refine ⟨by decide, by decide, by decide, by decide, fun byte inside => ?_⟩
  have first : oneBlock.process.mapped byte = (false || inRange 65536 4096 byte) := rfl
  have second : inRange 69632 8192 byte = true := inside
  simp only [inRange, decide_eq_true_eq] at second
  simp only [first, Bool.false_or, inRange, decide_eq_false_iff_not]
  omega

end Sysprog.MmapAlloc
