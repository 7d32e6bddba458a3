import Mathlib.Data.Finset.Card
import Mathlib.Order.Interval.Finset.Nat
import Sysprog.MmapHistory

namespace Sysprog.MmapAlloc

open MachineWord

/-!
# The tests of the allocator

The tests compare the numbers of pages in use before and after a call.  They pass for every
size, so they do not see the one that the sum with the header wraps for.
-/

/-! ## The tests -/

/-- The seven fields of `/proc/self/statm`, in pages. -/
structure MemInfo where
  size : Nat
  resident : Nat
  shared : Nat
  text : Nat
  lib : Nat
  data : Nat
  dt : Nat

/--
The kernel: what `mmap` answers to a process that asks for a length, and what
`/proc/self/statm` says, with `none` if it cannot be opened.
-/
structure Kernel where
  mmap : Process → Nat → Option Nat
  statm : Process → Option MemInfo

/-- `get_used_memory`, where `assert(0)` fails if the file cannot be opened. -/
def getUsedMemory (kernel : Kernel) (process : Process) : Option Nat :=
  match kernel.statm process with
  | none => none
  | some memInfo => some memInfo.size

/-- `enum test_result`. -/
def testSuccess : Nat := 0

/-- `ALLOC_LARGE`. -/
def allocLarge : Nat := 1

/-- `ALLOC_SMALL`. -/
def allocSmall : Nat := 2

/-- `NOT_FREED`. -/
def notFreed : Nat := 4

/-- `ALLOC_FAILED`. -/
def allocFailed : Nat := 8

/-- `test_variable_malloc`. -/
def testVariableMalloc (pageSize : Nat) (kernel : Kernel) (process : Process) (size : Nat) :
    Option (Nat × Process) := do
  let minExpectedPageAlloc := add size headerSize / pageSize
  let maxExpectedPageAlloc := add (add size headerSize / pageSize) 1
  let beforeMalloc ← getUsedMemory kernel process
  let answer := kernel.mmap process (mmapSize pageSize size)
  let (process, ptr) := naiveMalloc pageSize process size answer
  if ptr = none ∧ size ≠ 0 then
    some (allocFailed, process)
  else
    let afterMalloc ← getUsedMemory kernel process
    let allocated := sub afterMalloc beforeMalloc
    let ret := testSuccess
    let ret := if allocated < minExpectedPageAlloc then ret ||| allocSmall else ret
    let ret := if allocated > maxExpectedPageAlloc then ret ||| allocLarge else ret
    let process := naiveFree pageSize process (ptr.getD 0)
    let afterFree ← getUsedMemory kernel process
    let ret := if beforeMalloc ≠ afterFree then ret ||| notFreed else ret
    some (ret, process)

/-- One test and its assertion, which fails with `none`. -/
def assertVariableMalloc (pageSize : Nat) (kernel : Kernel) (process : Process) (size : Nat) :
    Option Process := do
  let (result, process) ← testVariableMalloc pageSize kernel process size
  if result = testSuccess then some process else none

/-- `test_alloc_zero`. -/
def testAllocZero (pageSize : Nat) (kernel : Kernel) (process : Process) : Option Process :=
  assertVariableMalloc pageSize kernel process 0

/-- `test_alloc_small`. -/
def testAllocSmall (pageSize : Nat) (kernel : Kernel) (process : Process) : Option Process :=
  (List.range' 1 (pageSize - headerSize - 1)).foldlM (assertVariableMalloc pageSize kernel) process

/-- The loop of `test_alloc_large`, with the size that it ends at. -/
def largeLoop (pageSize : Nat) (kernel : Kernel) : Nat → Nat → Process → Option (Nat × Process)
  | 0, _, _ => none
  | fuel + 1, size, process =>
      if size < 18446744073709551615 / 10 then do
        let (result, process) ← testVariableMalloc pageSize kernel process size
        if result &&& allocFailed ≠ 0 then
          some (size, process)
        else if result ≠ testSuccess then
          none
        else
          largeLoop pageSize kernel fuel (size * 2 % words) process
      else
        some (size, process)

/-- `test_alloc_large`, with `largest_sucessful_alloc`. -/
def testAllocLarge (pageSize : Nat) (kernel : Kernel) (fuel : Nat) (process : Process) :
    Option (Nat × Process) := do
  let (size, process) ← largeLoop pageSize kernel fuel (pageSize - headerSize) process
  some (size / 2, process)

/-- `main`. -/
def main (pageSize : Nat) (kernel : Kernel) (fuel : Nat) (process : Process) :
    Option (Nat × Process) := do
  let process ← testAllocZero pageSize kernel process
  let process ← testAllocSmall pageSize kernel process
  testAllocLarge pageSize kernel fuel process

variable {pageSize size : Nat} {process after : Process} {kernel : Kernel}

/-! ## Runs of the tests -/

/-- The pages that are mapped. -/
def mappedPages (pageSize : Nat) (process : Process) : Nat :=
  ((Finset.range (words / pageSize)).filter fun page => process.mapped (page * pageSize)).card

/-- Pages that are mapped are counted. -/
theorem mappedPages_add
    {base count : Nat}
    (positive : 0 < pageSize)
    (inside : base + count ≤ words / pageSize)
    (free :
      ∀ byte,
        inRange (base * pageSize) (count * pageSize) byte = true → process.mapped byte = false)
    (mapped :
      ∀ byte,
        after.mapped byte =
          (process.mapped byte || inRange (base * pageSize) (count * pageSize) byte)) :
    mappedPages pageSize after = mappedPages pageSize process + count := by
  have among :
      ∀ page,
        inRange (base * pageSize) (count * pageSize) (page * pageSize) = true ↔
          base ≤ page ∧ page < base + count := by
    intro page
    rw [inRange, decide_eq_true_iff, ← Nat.add_mul, Nat.mul_le_mul_right_iff positive,
      Nat.mul_lt_mul_right positive]
  have pages :
      ((Finset.range (words / pageSize)).filter fun page => after.mapped (page * pageSize)) =
        ((Finset.range (words / pageSize)).filter fun page => process.mapped (page * pageSize)) ∪
          Finset.Ico base (base + count) := by
    ext page
    simp only [Finset.mem_filter, Finset.mem_range, Finset.mem_union, Finset.mem_Ico, mapped,
      Bool.or_eq_true, among]
    constructor
    · rintro ⟨bound, before | new⟩
      · exact Or.inl ⟨bound, before⟩
      · exact Or.inr new
    · rintro (⟨bound, before⟩ | new)
      · exact ⟨bound, Or.inl before⟩
      · exact ⟨Nat.lt_of_lt_of_le new.2 inside, Or.inr new⟩
  have apart :
      Disjoint
        ((Finset.range (words / pageSize)).filter fun page => process.mapped (page * pageSize))
        (Finset.Ico base (base + count)) := by
    rw [Finset.disjoint_left]
    intro page before new
    have unmapped := free (page * pageSize) ((among page).mpr (Finset.mem_Ico.mp new))
    rw [(Finset.mem_filter.mp before).2] at unmapped
    cases unmapped
  rw [mappedPages, pages, Finset.card_union_of_disjoint apart, Nat.card_Ico,
    Nat.add_sub_cancel_left]
  rfl

/-- The number of mapped pages is a word. -/
theorem mappedPages_lt (large : headerSize < pageSize) :
    mappedPages pageSize process < words := by
  calc mappedPages pageSize process
    _ ≤ (Finset.range (words / pageSize)).card := Finset.card_filter_le ..
    _ = words / pageSize := Finset.card_range _
    _ < words := Nat.div_lt_self (by decide) (Nat.lt_trans (by decide) large)

/-- What is mapped at all is as many pages as were counted. -/
theorem mmapSize_of_pos
    (large : headerSize < pageSize)
    (divides : pageSize ∣ words)
    (some : 0 < mmapSize pageSize size) :
    mmapSize pageSize size = pages pageSize size * pageSize := by
  have fewer : pages pageSize size * pageSize ≤ words := by
    rw [(pages_lt large).1]
    have positive : 0 < pageSize := Nat.zero_lt_of_lt large
    refine (Nat.le_div_iff_mul_le positive).mp ((Nat.div_lt_iff_lt_mul positive).mpr ?_)
    rw [Nat.div_mul_cancel divides]
    exact add_lt
  rcases Nat.lt_or_eq_of_le fewer with below | all
  · exact Nat.mod_eq_of_lt below
  · rw [mmapSize, all, Nat.mod_self] at some
    exact absurd some (Nat.lt_irrefl 0)

/-- What a request that is served adds to the mapped pages, and what freeing it leaves. -/
theorem naiveMalloc_served
    {page : Nat}
    (large : headerSize < pageSize)
    (narrow : pageSize < words)
    (divides : pageSize ∣ words)
    (positive : 0 < size)
    (answers : Answers pageSize process (mmapSize pageSize size) (some page)) :
    mappedPages pageSize (naiveMalloc pageSize process size (some page)).1 =
        mappedPages pageSize process + pages pageSize size ∧
      (naiveFree pageSize (naiveMalloc pageSize process size (some page)).1
          (page + headerSize)).mapped = process.mapped := by
  obtain ⟨some, _, ⟨base, place⟩, inside, free⟩ := answers
  have wide : 0 < pageSize := Nat.zero_lt_of_lt large
  have whole := wholePages_of_dvd wide (@mmapSize_dvd pageSize size divides)
  rw [whole] at inside free
  have mapped := @naiveMalloc_mapped pageSize size process page positive whole
  constructor
  · have length := mmapSize_of_pos large divides some
    obtain rfl : page = base * pageSize := by rw [place, Nat.mul_comm]
    rw [length] at free inside mapped
    refine mappedPages_add wide ?_ free (congrFun mapped)
    rw [Nat.le_div_iff_mul_le wide, Nat.add_mul]
    exact inside
  · rw [naiveFree_used large narrow positive ⟨rfl, fun _ _ => rfl⟩, munmap,
      if_pos ⟨some, base, place⟩]
    simp only [whole, mapped]
    exact unmapped_again free

/-! ## The kernel -/

/-- A kernel gives only answers that `mmap` may give. -/
def Honest (pageSize : Nat) (kernel : Kernel) : Prop :=
  ∀ process length, Answers pageSize process length (kernel.mmap process length)

/--
`/proc/self/statm` can be opened, and its first field counts the mapped pages, up to a number
of other pages that stays the same.
-/
def Reports (pageSize : Nat) (kernel : Kernel) : Prop :=
  ∃ others,
    ∀ process,
      ∃ memInfo,
        kernel.statm process = some memInfo ∧
          memInfo.size = mappedPages pageSize process + others ∧ memInfo.size < words

/-- `get_used_memory` returns, and counts the mapped pages from some number on. -/
theorem Reports.getUsedMemory (reports : Reports pageSize kernel) :
    ∃ others,
      ∀ process,
        getUsedMemory kernel process = some (mappedPages pageSize process + others) ∧
          mappedPages pageSize process + others < words := by
  obtain ⟨others, reports⟩ := reports
  refine ⟨others, fun process => ?_⟩
  obtain ⟨memInfo, opened, size, word⟩ := reports process
  rw [size] at word
  refine ⟨?_, word⟩
  simp only [MmapAlloc.getUsedMemory, opened, size]

/-! ## One test -/

/-- A test finds nothing wrong, and leaves mapped what was mapped. -/
theorem testVariableMalloc_passes
    (large : headerSize < pageSize)
    (narrow : pageSize < words)
    (divides : pageSize ∣ words)
    (honest : Honest pageSize kernel)
    (reports : Reports pageSize kernel) :
    ∃ after,
      testVariableMalloc pageSize kernel process size =
          some
            (if size ≠ 0 ∧ kernel.mmap process (mmapSize pageSize size) = none then allocFailed
              else testSuccess,
              after) ∧
        after.mapped = process.mapped := by
  obtain ⟨others, counts⟩ := reports.getUsedMemory
  have small := (counts process).2
  rcases Nat.eq_zero_or_pos size with rfl | positive
  · have few : add 0 headerSize / pageSize = 0 := Nat.div_eq_of_lt large
    have same :
        sub (mappedPages pageSize process + others) (mappedPages pageSize process + others) =
          0 := by
      rw [sub_of_le small (Nat.le_refl _), Nat.sub_self]
    simp [testVariableMalloc, naiveMalloc, naiveMallocInternal, naiveFree, few, same, counts]
  · have answers := honest process (mmapSize pageSize size)
    cases answer : kernel.mmap process (mmapSize pageSize size) with
    | none =>
        simp [testVariableMalloc, naiveMalloc, naiveMallocInternal, mmap, counts, answer,
          Nat.ne_of_gt positive]
    | some page =>
        rw [answer] at answers
        obtain ⟨more, back⟩ := naiveMalloc_served large narrow divides positive answers
        have returned :
            (naiveMalloc pageSize process size (some page)).2 = some (page + headerSize) := by
          rw [naiveMalloc_some positive]
        have after := (counts (naiveMalloc pageSize process size (some page)).1).2
        have allocated :
            sub (mappedPages pageSize (naiveMalloc pageSize process size (some page)).1 + others)
                (mappedPages pageSize process + others) =
              pages pageSize size := by
          rw [sub_of_le after (by omega), more]
          omega
        have again :
            mappedPages pageSize
                (naiveFree pageSize (naiveMalloc pageSize process size (some page)).1
                  (page + headerSize)) =
              mappedPages pageSize process := by
          rw [mappedPages, back, mappedPages]
        have enough : ¬ pages pageSize size < add size headerSize / pageSize := by
          rw [(pages_lt large).1]
          omega
        have notMore : ¬ pages pageSize size > add (add size headerSize / pageSize) 1 :=
          Nat.lt_irrefl _
        refine ⟨_, ?_, back⟩
        simp only [testVariableMalloc, counts, answer, returned, allocated, again, enough, notMore,
          Option.bind_eq_bind, Option.bind_some, Option.getD_some, reduceCtorEq, false_and,
          and_false, if_false, ne_eq, not_true]

/-- An assertion about a request that is served holds. -/
theorem assertVariableMalloc_some
    (large : headerSize < pageSize)
    (narrow : pageSize < words)
    (divides : pageSize ∣ words)
    (honest : Honest pageSize kernel)
    (reports : Reports pageSize kernel)
    (served : size = 0 ∨ kernel.mmap process (mmapSize pageSize size) ≠ none) :
    ∃ after,
      assertVariableMalloc pageSize kernel process size = some after ∧
        after.mapped = process.mapped := by
  obtain ⟨after, result, same⟩ :=
    @testVariableMalloc_passes pageSize size process kernel large narrow divides honest reports
  refine ⟨after, ?_, same⟩
  rw [if_neg (by tauto)] at result
  rw [assertVariableMalloc, result]
  rfl

/-- A request below one page is for one page. -/
theorem mmapSize_small
    (large : headerSize < pageSize)
    (narrow : pageSize < words)
    (small : size < pageSize - headerSize) :
    mmapSize pageSize size = pageSize := by
  have sum : add size headerSize = size + headerSize := add_of_lt (by omega)
  rw [mmapSize, (pages_lt large).1, sum, Nat.div_eq_of_lt (by omega), Nat.zero_add, Nat.one_mul,
    Nat.mod_eq_of_lt narrow]

/-- Tests of requests below one page pass, one after the other. -/
theorem smallSizes_pass
    {sizes : List Nat}
    (large : headerSize < pageSize)
    (narrow : pageSize < words)
    (divides : pageSize ∣ words)
    (honest : Honest pageSize kernel)
    (reports : Reports pageSize kernel)
    (small : ∀ size ∈ sizes, size < pageSize - headerSize)
    (served : ∀ used, used.mapped = process.mapped → kernel.mmap used pageSize ≠ none) :
    ∃ after,
      sizes.foldlM (assertVariableMalloc pageSize kernel) process = some after ∧
        after.mapped = process.mapped := by
  induction sizes generalizing process with
  | nil =>
      exact ⟨process, rfl, rfl⟩
  | cons size sizes inductionHypothesis =>
      have here : kernel.mmap process (mmapSize pageSize size) ≠ none := by
        rw [mmapSize_small large narrow (small size List.mem_cons_self)]
        exact served process rfl
      obtain ⟨next, passed, same⟩ :=
        assertVariableMalloc_some large narrow divides honest reports (Or.inr here)
      obtain ⟨after, rest, sameRest⟩ :=
        inductionHypothesis (fun other member => small other (List.mem_cons_of_mem _ member))
          fun used again => served used (again.trans same)
      refine ⟨after, ?_, sameRest.trans same⟩
      rw [List.foldlM_cons, passed]
      exact rest

/--
The loop of the large sizes doubles until a request is refused or the bound is reached, and
no assertion fails on the way.  Sixty-four rounds are enough, since a size that is doubled
that often is not a word.
-/
theorem largeLoop_passes
    {fuel : Nat}
    (large : headerSize < pageSize)
    (narrow : pageSize < words)
    (divides : pageSize ∣ words)
    (honest : Honest pageSize kernel)
    (reports : Reports pageSize kernel)
    (word : size < words)
    (enough : words ≤ size * 2 ^ fuel) :
    ∃ doublings after,
      largeLoop pageSize kernel fuel size process = some (size * 2 ^ doublings, after) ∧
        after.mapped = process.mapped ∧
        (18446744073709551615 / 10 ≤ size * 2 ^ doublings ∨
          ∃ used,
            used.mapped = process.mapped ∧
              kernel.mmap used (mmapSize pageSize (size * 2 ^ doublings)) = none) := by
  induction fuel generalizing size process with
  | zero =>
      rw [Nat.pow_zero, Nat.mul_one] at enough
      exact absurd word (Nat.not_lt.mpr enough)
  | succ fuel inductionHypothesis =>
      rw [largeLoop]
      by_cases below : size < 18446744073709551615 / 10
      · obtain ⟨next, result, same⟩ :=
          @testVariableMalloc_passes pageSize size process kernel large narrow divides honest
            reports
        rw [if_pos below]
        by_cases refused : size ≠ 0 ∧ kernel.mmap process (mmapSize pageSize size) = none
        · rw [if_pos refused] at result
          rw [result, Option.bind_eq_bind, Option.bind_some]
          dsimp only
          rw [if_pos (by decide)]
          refine ⟨0, _, by rw [Nat.pow_zero, Nat.mul_one], same, Or.inr ⟨process, rfl, ?_⟩⟩
          rw [Nat.pow_zero, Nat.mul_one]
          exact refused.2
        · rw [if_neg refused] at result
          rw [result, Option.bind_eq_bind, Option.bind_some]
          dsimp only
          rw [if_neg (by decide), if_neg (by decide)]
          have fits : size * 2 < words := by
            rw [words]
            omega
          rw [Nat.mod_eq_of_lt fits]
          obtain ⟨doublings, after, looped, sameAfter, stopped⟩ :=
            inductionHypothesis fits (by rwa [Nat.mul_assoc, ← Nat.pow_succ'])
          rw [Nat.mul_assoc, ← Nat.pow_succ'] at looped stopped
          rw [same] at sameAfter stopped
          exact ⟨doublings + 1, after, looped, sameAfter, stopped⟩
      · rw [if_neg below]
        refine ⟨0, process, by rw [Nat.pow_zero, Nat.mul_one], rfl, Or.inl ?_⟩
        rw [Nat.pow_zero, Nat.mul_one]
        exact Nat.not_lt.mp below

/-- What `/proc/self/statm` says of a program of so many pages, all of them resident. -/
def programOf (size : Nat) : MemInfo where
  size := size
  resident := size
  shared := 0
  text := 0
  lib := 0
  data := size
  dt := 0

@[simp] theorem programOf_size (size : Nat) : (programOf size).size = size := rfl

/-- A kernel that has one place only, from 64 KiB on, and that counts what is mapped. -/
def onePlace : Kernel where
  mmap := fun process length =>
    if 0 < length ∧
        65536 + wholePages 4096 length ≤ words ∧
          ∀ index, index < wholePages 4096 length → process.mapped (65536 + index) = false then
      some 65536
    else
      none
  statm := fun process => some (programOf (mappedPages 4096 process))

/-- The kernel with one place is honest. -/
theorem onePlace_honest : Honest 4096 onePlace := by
  intro process length
  dsimp only [onePlace]
  split
  next place =>
    refine ⟨place.1, by decide, by decide, place.2.1, fun byte inside => ?_⟩
    rw [inRange, decide_eq_true_iff] at inside
    have free := place.2.2 (byte - 65536) (by omega)
    rwa [Nat.add_sub_cancel' inside.1] at free
  next =>
    trivial

/-- The kernel with one place reports the pages that are mapped. -/
theorem onePlace_reports : Reports 4096 onePlace := by
  refine ⟨0, fun process => ⟨programOf (mappedPages 4096 process), rfl, ?_, ?_⟩⟩
  · rw [programOf_size, Nat.add_zero]
  · rw [programOf_size]
    exact @mappedPages_lt 4096 process (by decide)

end Sysprog.MmapAlloc
