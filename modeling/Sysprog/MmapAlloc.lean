import Sysprog.ByteMemory
import Sysprog.MachineWord

namespace Sysprog.MmapAlloc

open ByteMemory MachineWord

/-!
# The allocator of `mmap-alloc/alloc.c`

Every allocation is a mapping of its own, with the number of pages and the page size in
front of the data.  `naive_free` multiplies the two again.  The memory is that of the whole
process; the addresses that are mapped are kept beside it.
-/

/-- The bytes of a process and the addresses that are mapped. -/
structure Process where
  memory : Memory
  mapped : Nat → Bool

/-- The bytes from `start` on, `length` of them. -/
def inRange (start length byte : Nat) : Bool :=
  decide (start ≤ byte ∧ byte < start + length)

/-- The pages of a length, in bytes. -/
def wholePages (pageSize length : Nat) : Nat :=
  (length + (pageSize - 1)) / pageSize * pageSize

/-- `mmap` of anonymous memory, with the kernel's answer; `none` is `MAP_FAILED`. -/
def mmap (pageSize : Nat) (process : Process) (length : Nat) : Option Nat → Process
  | none => process
  | some ptr =>
      { memory := fun byte =>
          if inRange ptr (wholePages pageSize length) byte then 0 else process.memory byte
        mapped := fun byte =>
          process.mapped byte || inRange ptr (wholePages pageSize length) byte }

/--
The answers that `mmap` may give: failure, always so for no bytes at all, or a page address
from which on the pages are free, below the end of the address space.
-/
def Answers (pageSize : Nat) (process : Process) (length : Nat) : Option Nat → Prop
  | none => True
  | some ptr =>
      0 < length ∧ 0 < ptr ∧ pageSize ∣ ptr ∧ ptr + wholePages pageSize length ≤ words ∧
        ∀ byte, inRange ptr (wholePages pageSize length) byte = true → process.mapped byte = false

/-- `munmap`, which does nothing but fail for no bytes or where no page starts. -/
def munmap (pageSize : Nat) (process : Process) (address length : Nat) : Process :=
  if 0 < length ∧ pageSize ∣ address then
    { process with
      mapped := fun byte =>
        process.mapped byte && !inRange address (wholePages pageSize length) byte }
  else
    process

/-- `sizeof(struct page_header)`: two `size_t`. -/
def headerSize : Nat :=
  16

/-- The number of pages that `naive_malloc_internal` asks for. -/
def pages (pageSize size : Nat) : Nat :=
  add (add size headerSize / pageSize) 1

/-- The length that it passes to `mmap`. -/
def mmapSize (pageSize size : Nat) : Nat :=
  pages pageSize size * pageSize % words

/-- `naive_malloc_internal`, with the address of the header. -/
def naiveMallocInternal (pageSize : Nat) (process : Process) (size : Nat) (answer : Option Nat) :
    Process × Option Nat :=
  if size = 0 then
    (process, none)
  else
    let process := mmap pageSize process (mmapSize pageSize size) answer
    match answer with
    | none => (process, none)
    | some page =>
        let memory := write process.memory page (encode 8 (pages pageSize size))
        let memory := write memory (page + 8) (encode 8 pageSize)
        ({ process with memory }, some page)

/-- `naive_malloc`. -/
def naiveMalloc (pageSize : Nat) (process : Process) (size : Nat) (answer : Option Nat) :
    Process × Option Nat :=
  let (process, result) := naiveMallocInternal pageSize process size answer
  (process, result.map (· + headerSize))

/-- `naive_free_internal` of a header that is there. -/
def naiveFreeInternal (pageSize : Nat) (process : Process) (header : Nat) : Process :=
  let pages := decode (read process.memory header 8)
  let page_size := decode (read process.memory (header + 8) 8)
  munmap pageSize process header (pages * page_size % words)

/-- `naive_free`, where 0 is the null pointer. -/
def naiveFree (pageSize : Nat) (process : Process) (ptr : Nat) : Process :=
  if ptr = 0 then process else naiveFreeInternal pageSize process (ptr - headerSize)

/-! ## What an allocation is -/

/-- The user has written to the `size` bytes at `ptr` and to nothing else. -/
structure Used (ptr size : Nat) (process used : Process) : Prop where
  mapped : used.mapped = process.mapped
  memory : ∀ byte, inRange ptr size byte = false → used.memory byte = process.memory byte

/--
A pointer that is returned stands behind a header in a mapping of its own that holds the
header and all `size` bytes, and freeing it, whatever has been written to them, unmaps that
mapping and nothing else.
-/
def Allocates (pageSize : Nat) (process : Process) (size : Nat) (answer : Option Nat) : Prop :=
  ∀ ptr,
    (naiveMalloc pageSize process size answer).2 = some ptr →
    ∃ start length,
      ptr = start + headerSize ∧
        headerSize + size ≤ length ∧
        (∀ byte, inRange start length byte = true → process.mapped byte = false) ∧
        (naiveMalloc pageSize process size answer).1.mapped =
          (fun byte => process.mapped byte || inRange start length byte) ∧
        ∀ used,
          Used ptr size (naiveMalloc pageSize process size answer).1 used →
          (naiveFree pageSize used ptr).mapped = process.mapped

variable {pageSize size : Nat} {process : Process}

/-! ## Sizes -/

/-- Whole pages are their own length. -/
theorem wholePages_of_dvd {length : Nat} (positive : 0 < pageSize) (whole : pageSize ∣ length) :
    wholePages pageSize length = length := by
  obtain ⟨count, rfl⟩ := whole
  rw [wholePages, Nat.mul_add_div positive, Nat.div_eq_of_lt (by omega), Nat.add_zero,
    Nat.mul_comm]

/-- What is passed to `mmap` is a number of whole pages. -/
theorem mmapSize_dvd (divides : pageSize ∣ words) : pageSize ∣ mmapSize pageSize size :=
  (Nat.dvd_mod_iff divides).mpr (Nat.dvd_mul_left pageSize _)

/-- The number of pages does not wrap, and is stored as it is. -/
theorem pages_lt (large : headerSize < pageSize) :
    pages pageSize size = add size headerSize / pageSize + 1 ∧ pages pageSize size < words := by
  have sum : add size headerSize < words := add_lt
  have quotient : add size headerSize / pageSize ≤ add size headerSize / 2 :=
    Nat.div_le_div_left (by rw [headerSize] at large; omega) (by decide)
  have fits : add size headerSize / pageSize + 1 < words := by
    rw [words] at sum ⊢
    omega
  rw [pages, add_of_lt fits]
  exact ⟨rfl, fits⟩

/--
Where the size and the header have a sum, the pages are more than the sum, or there are so
many of them that their length wraps to zero.
-/
theorem mmapSize_of_lt
    (large : headerSize < pageSize)
    (divides : pageSize ∣ words)
    (fits : size + headerSize < words) :
    mmapSize pageSize size = 0 ∨ headerSize + size ≤ mmapSize pageSize size := by
  have positive : 0 < pageSize := Nat.zero_lt_of_lt large
  obtain ⟨count, total⟩ := divides
  have whole := Nat.div_add_mod (size + headerSize) pageSize
  have rest := Nat.mod_lt (size + headerSize) positive
  have product :
      pages pageSize size * pageSize =
        pageSize * ((size + headerSize) / pageSize) + pageSize := by
    rw [(pages_lt large).1, add_of_lt fits, Nat.succ_mul, Nat.mul_comm]
  -- The pages before the last one end below the end of the address space, so they are fewer.
  have fewer : (size + headerSize) / pageSize < count := by
    rw [Nat.div_lt_iff_lt_mul positive, Nat.mul_comm, ← total]
    exact fits
  have bounded : pages pageSize size * pageSize ≤ words := by
    rw [product, total, ← Nat.mul_succ]
    exact Nat.mul_le_mul_left pageSize fewer
  rcases Nat.lt_or_eq_of_le bounded with below | all
  · right
    rw [mmapSize, Nat.mod_eq_of_lt below, product]
    omega
  · left
    rw [mmapSize, all, Nat.mod_self]

/-- Where the sum wraps, one page is asked for. -/
theorem mmapSize_of_ge
    (large : headerSize < pageSize)
    (narrow : pageSize < words)
    (word : size < words)
    (wraps : words ≤ size + headerSize) :
    mmapSize pageSize size = pageSize := by
  have sum : add size headerSize < headerSize := by
    rw [add_of_ge wraps (by rw [headerSize, words] at *; omega)]
    omega
  rw [mmapSize, (pages_lt large).1, Nat.div_eq_of_lt (Nat.lt_trans sum large), Nat.zero_add,
    Nat.one_mul, Nat.mod_eq_of_lt narrow]

/-! ## Allocating and freeing -/

/-- What `naive_malloc` leaves behind an answer of `mmap`. -/
theorem naiveMalloc_some {page : Nat} (positive : 0 < size) :
    naiveMalloc pageSize process size (some page) =
      ({ memory :=
          write
            (write (mmap pageSize process (mmapSize pageSize size) (some page)).memory page
              (encode 8 (pages pageSize size)))
            (page + 8) (encode 8 pageSize)
         mapped := (mmap pageSize process (mmapSize pageSize size) (some page)).mapped },
        some (page + headerSize)) := by
  rw [naiveMalloc, naiveMallocInternal, if_neg (Nat.ne_of_gt positive)]
  rfl

/-- `naive_free` asks `munmap` for the length that `mmap` was asked for. -/
theorem naiveFree_used
    {page : Nat}
    {used : Process}
    (large : headerSize < pageSize)
    (narrow : pageSize < words)
    (positive : 0 < size)
    (after :
      Used (page + headerSize) size (naiveMalloc pageSize process size (some page)).1 used) :
    naiveFree pageSize used (page + headerSize) =
      munmap pageSize used page (mmapSize pageSize size) := by
  have untouched : ∀ offset, offset < headerSize →
      used.memory (page + offset) =
        (naiveMalloc pageSize process size (some page)).1.memory (page + offset) := by
    intro offset inside
    apply after.memory
    simp only [inRange, decide_eq_false_iff_not]
    omega
  have first : decode (read used.memory page 8) = pages pageSize size := by
    have same :=
      @read_congr used.memory page 8
        (naiveMalloc pageSize process size (some page)).1.memory page
        fun index inside => untouched index (by rw [headerSize]; omega)
    rw [same, naiveMalloc_some positive, read_write_disjoint (.inl (Nat.le_refl _)),
      read_write_of_length (length_encode 8 _)]
    exact decode_encode_of_lt (pages_lt large).2
  have second : decode (read used.memory (page + 8) 8) = pageSize := by
    have same :=
      @read_congr used.memory (page + 8) 8
        (naiveMalloc pageSize process size (some page)).1.memory (page + 8)
        fun index inside => by
          rw [Nat.add_assoc]
          exact untouched (8 + index) (by rw [headerSize]; omega)
    rw [same, naiveMalloc_some positive, read_write_of_length (length_encode 8 _)]
    exact decode_encode_of_lt narrow
  have back : page + headerSize - headerSize = page := Nat.add_sub_cancel _ _
  rw [naiveFree, if_neg (by rw [headerSize]; omega), back, naiveFreeInternal]
  simp only [first, second]
  rfl

/-- A mapping that was free before is free again after it is unmapped. -/
theorem unmapped_again
    {start length : Nat}
    (free : ∀ byte, inRange start length byte = true → process.mapped byte = false) :
    (fun byte =>
        (process.mapped byte || inRange start length byte) && !inRange start length byte) =
      process.mapped := by
  funext byte
  cases inside : inRange start length byte with
  | true => simp [free byte inside]
  | false => simp

/-- Where the size and the header have a sum, the allocation is one. -/
theorem allocates_of_lt
    {page : Nat}
    (large : headerSize < pageSize)
    (narrow : pageSize < words)
    (divides : pageSize ∣ words)
    (positive : 0 < size)
    (fits : size + headerSize < words)
    (answers : Answers pageSize process (mmapSize pageSize size) (some page)) :
    Allocates pageSize process size (some page) := by
  obtain ⟨some, _, aligned, _, free⟩ := answers
  have whole := wholePages_of_dvd (Nat.zero_lt_of_lt large) (@mmapSize_dvd pageSize size divides)
  rw [whole] at free
  have enough : headerSize + size ≤ mmapSize pageSize size := by
    rcases mmapSize_of_lt large divides fits with none | enough
    · omega
    · exact enough
  have mapped :
      (naiveMalloc pageSize process size (.some page)).1.mapped =
        fun byte => process.mapped byte || inRange page (mmapSize pageSize size) byte := by
    rw [naiveMalloc_some positive]
    simp only [mmap, whole]
  intro ptr returned
  rw [naiveMalloc_some positive] at returned
  obtain rfl : page + headerSize = ptr := Option.some.inj returned
  refine ⟨page, mmapSize pageSize size, rfl, enough, free, mapped, fun used after => ?_⟩
  rw [naiveFree_used large narrow positive after, munmap, if_pos ⟨some, aligned⟩]
  simp only [whole, after.mapped, mapped]
  exact unmapped_again free

/-- Where the sum wraps, the one page that is mapped does not hold the bytes. -/
theorem not_allocates_of_ge
    {page : Nat}
    (large : headerSize < pageSize)
    (narrow : pageSize < words)
    (word : size < words)
    (wraps : words ≤ size + headerSize) :
    ¬ Allocates pageSize process size (some page) := by
  intro allocates
  have positive : 0 < size := by
    rcases Nat.eq_zero_or_pos size with rfl | some
    · exact absurd wraps (by decide)
    · exact some
  obtain ⟨start, length, place, enough, free, mapped, _⟩ :=
    allocates (page + headerSize) (by rw [naiveMalloc_some positive])
  obtain rfl : page = start := by omega
  have onePage := mmapSize_of_ge large narrow word wraps
  have whole := wholePages_of_dvd (Nat.zero_lt_of_lt large) (Nat.dvd_refl pageSize)
  -- The byte behind the page belongs to the length that is promised.
  have inside : inRange page length (page + pageSize) = true := by
    simp only [inRange, decide_eq_true_eq]
    omega
  have outside : inRange page pageSize (page + pageSize) = false := by
    simp only [inRange, decide_eq_false_iff_not]
    omega
  have there := congrFun mapped (page + pageSize)
  rw [naiveMalloc_some positive] at there
  simp only [mmap, onePage, whole, inside, outside, Bool.or_false, Bool.or_true] at there
  rw [free _ inside] at there
  simp at there

/-- A process with nothing mapped. -/
def blank : Process where
  memory := fun _ => 0
  mapped := fun _ => false

end Sysprog.MmapAlloc
