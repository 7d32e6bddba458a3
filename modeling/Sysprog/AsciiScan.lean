import Mathlib.Algebra.Order.Group.Nat
import Mathlib.Order.Interval.Finset.Nat
import Sysprog.AsciiModel
import Sysprog.PackedBytes

namespace Sysprog.Ascii

open BlockScan ByteMemory FuelLoop MachineWord PackedBytes

/-!
# What the loops of the character tests find

The test of eight bytes at once is the test of every one of them, so the two loops together
test every byte of the string, as long as the index does not wrap.  An index that wraps
never leaves the loop unless a byte that it reaches fails the test.
-/

variable {indices size fuel : Nat} {memory : Memory} {word : Nat → Bool} {byte : UInt8 → Bool}

/-- The test on a word is the test on each of its bytes. -/
def Bytewise (word : Nat → Bool) (byte : UInt8 → Bool) : Prop :=
  ∀ memory i,
    word (decode (read memory i 8)) = true ↔ ∀ lane, lane < 8 → byte (memory (i + lane)) = true

/-- A function returns at most one value. -/
theorem Returns.unique
    {function : Nat → Option Bool}
    {first second : Bool}
    (one : Returns function first)
    (other : Returns function second) :
    first = second := by
  obtain ⟨enough, returned⟩ := one
  obtain ⟨plenty, again⟩ := other
  have both := (returned (enough + plenty + 1) (by omega)).symm.trans
    (again (enough + plenty + 1) (by omega))
  exact Option.some.inj both

/-- Two functions return the same exactly if what they return is the same. -/
theorem Returns.agree_iff
    {function other : Nat → Option Bool}
    {first second : Bool}
    (one : Returns function first)
    (two : Returns other second) :
    (∃ value, Returns function value ∧ Returns other value) ↔ first = second := by
  constructor
  · rintro ⟨value, left, right⟩
    exact (one.unique left).trans (right.unique two)
  · rintro rfl
    exact ⟨first, one, two⟩

/-- A byte that fails the test makes its word fail. -/
theorem Bytewise.fails
    (same : Bytewise word byte)
    {i : Nat}
    (fails : byte (memory i) = false) :
    word (decode (read memory (i - i % 8) 8)) = false := by
  rw [Bool.eq_false_iff]
  intro passes
  have lane := (same memory (i - i % 8)).mp passes (i % 8) (Nat.mod_lt _ (by decide))
  rw [Nat.sub_add_cancel (Nat.mod_le _ _), fails] at lane
  simp at lane

/-- The loop over single bytes tests all that is left. -/
theorem byte_scans
    {start : Nat}
    (narrow : size < indices)
    (within : start ≤ size)
    (enough : size < fuel) :
    ∃ result,
      loop (byteRound indices size memory byte) fuel start = some result ∧
        ((result = .rejected ∧ ∃ i, i < size ∧ byte (memory i) = false) ∨
          (result = .passed size ∧
            ∀ i, start ≤ i → i < size → byte (memory i) = true)) := by
  refine @loop_correct _ _ _
    (fun bound i =>
      bound = size - i ∧ i ≤ size ∧
        ∀ earlier, start ≤ earlier → earlier < i → byte (memory earlier) = true)
    _ ?_ (size - start) start ⟨rfl, within, by omega⟩ _ (by omega)
  rintro bound i ⟨rfl, inside, tested⟩
  rw [byteRound]
  by_cases more : i < size
  · rw [if_pos more]
    cases passes : byte (memory i) with
    | false => exact Or.inl ⟨rfl, i, more, passes⟩
    | true =>
        rw [if_pos rfl, Nat.mod_eq_of_lt (by omega)]
        refine ⟨size - (i + 1), by omega, rfl, more, ?_⟩
        intro earlier behind below
        rcases Nat.lt_or_eq_of_le (Nat.le_of_lt_succ below) with less | rfl
        · exact tested earlier behind less
        · exact passes
  · obtain rfl : i = size := by omega
    rw [if_neg more]
    exact Or.inr ⟨rfl, tested⟩

/-- While the index does not wrap, the answer is that of the test on every byte. -/
theorem scan_narrow
    (same : Bytewise word byte)
    (positive : 0 < size)
    (narrow : size + 8 < indices) :
    Returns (fun fuel => scan indices word byte fuel memory size)
      (decide (∀ i, i < size → byte (memory i) = true)) := by
  refine ⟨size, fun fuel enough => ?_⟩
  obtain ⟨found, whole, blocks⟩ :=
    @block_scans indices 8 size fuel (fun i => word (decode (read memory i 8)))
      (by decide) narrow enough
  obtain ⟨rfl, block, -, inside, fails⟩ | ⟨rfl, blocksPass⟩ := blocks
  · have bad : ¬ ∀ i, i < size → byte (memory i) = true := by
      intro all
      rw [(same memory block).mpr fun lane below => all _ (by omega)] at fails
      simp at fails
    simp only [scan, if_neg (Nat.ne_of_gt positive), whole, bad, decide_false]
  · obtain ⟨last, rest, bytes⟩ :=
      @byte_scans indices size fuel memory byte (size - size % 8) (by omega) (by omega) enough
    obtain ⟨rfl, i, inside, fails⟩ | ⟨rfl, bytesPass⟩ := bytes
    · have bad : ¬ ∀ i, i < size → byte (memory i) = true := by
        intro all
        rw [all i inside] at fails
        simp at fails
      simp only [scan, if_neg (Nat.ne_of_gt positive), whole, rest, bad, decide_false]
    · have good : ∀ i, i < size → byte (memory i) = true := by
        intro i inside
        by_cases tail : size - size % 8 ≤ i
        · exact bytesPass i tail inside
        · -- The byte lies in a whole block.
          have block := (same memory (i - i % 8)).mp
            (blocksPass (i - i % 8) (Nat.dvd_sub_mod i) (by omega)) (i % 8) (by omega)
          rwa [Nat.sub_add_cancel (Nat.mod_le _ _)] at block
      simp only [scan, if_neg (Nat.ne_of_gt positive), whole, rest, decide_eq_true good]

/-- The bytes that an index of limited width reaches before it wraps. -/
def reachable (indices size : Nat) : Nat :=
  if size < indices then indices - 8 else indices

/-- An index that wraps still reaches the first bytes. -/
theorem scan_rejects
    (same : Bytewise word byte)
    (positive : 0 < size)
    (whole : 8 ∣ indices)
    (wide : indices ≤ size + 8)
    {i : Nat}
    (reached : i < reachable indices size)
    (fails : byte (memory i) = false) :
    Returns (fun fuel => scan indices word byte fuel memory size) false := by
  refine ⟨size, fun fuel enough => ?_⟩
  have inside : i - i % 8 + 8 ≤ size ∧ i - i % 8 < indices := by
    rw [reachable] at reached
    split at reached <;> omega
  have rejected :=
    @block_rejects indices 8 size fuel (fun i => word (decode (read memory i 8))) (i - i % 8)
      (by decide) (Nat.dvd_sub_mod i) inside.1 inside.2 (same.fails fails) (by omega)
  simp only [scan, if_neg (Nat.ne_of_gt positive), rejected]

/-- Where no byte that the index reaches fails the test, nothing is returned. -/
theorem scan_stuck
    (same : Bytewise word byte)
    (positive : 0 < size)
    (some_index : 0 < indices)
    (whole : 8 ∣ indices)
    (wide : indices ≤ size + 8)
    (passes : ∀ i, i < reachable indices size → byte (memory i) = true)
    (value : Bool) :
    ¬ Returns (fun fuel => scan indices word byte fuel memory size) value := by
  rintro ⟨enough, returned⟩
  have last := returned (enough + 1) (by omega)
  simp only [scan, if_neg (Nat.ne_of_gt positive)] at last
  have blocksPass : ∀ block, 8 ∣ block → block + 8 ≤ size → block < indices →
      word (decode (read memory block 8)) = true := by
    intro block aligned inside below
    refine (same memory block).mpr fun lane small => passes _ ?_
    rw [reachable]
    split <;> omega
  cases found : loop (blockRound indices 8 size fun i => word (decode (read memory i 8)))
      (enough + 1) 0 with
  | none =>
      rw [found] at last
      simp at last
  | some result =>
      obtain rfl := block_stuck some_index whole wide blocksPass found
      rw [found] at last
      simp at last

/-- When the two loops return the answer of the test on every byte. -/
theorem scan_returns_iff
    (same : Bytewise word byte)
    (positive : 0 < size)
    (some_index : 0 < indices)
    (whole : 8 ∣ indices) :
    Returns (fun fuel => scan indices word byte fuel memory size)
        (decide (∀ i, i < size → byte (memory i) = true)) ↔
      size + 8 < indices ∨ ∃ i, i < reachable indices size ∧ byte (memory i) = false := by
  by_cases narrow : size + 8 < indices
  · simp only [narrow, true_or, iff_true]
    exact scan_narrow same positive narrow
  · have wide : indices ≤ size + 8 := Nat.le_of_not_lt narrow
    simp only [narrow, false_or]
    constructor
    · intro returned
      by_contra none
      refine scan_stuck same positive some_index whole wide (fun i reached => ?_) _ returned
      by_contra fails
      exact none ⟨i, reached, by simpa using fails⟩
    · rintro ⟨i, reached, fails⟩
      have inside : i < size := by
        rw [reachable] at reached
        split at reached <;> omega
      have bad : ¬ ∀ i, i < size → byte (memory i) = true := by
        intro all
        rw [all i inside] at fails
        simp at fails
      rw [decide_eq_false bad]
      exact scan_rejects same positive whole wide reached fails

/-! ## `is_ascii` -/

/-- What holds of every number below 256 holds of every byte. -/
theorem forall_byte
    {holds : UInt8 → Prop}
    (numbers : ∀ n, n < 256 → holds (UInt8.ofNat n))
    (c : UInt8) :
    holds c := by
  have here := numbers c.toNat c.toNat_lt
  rwa [UInt8.ofNat_toNat] at here

/-- A clear high bit is a value below 128. -/
theorem high_bit_clear : ∀ c : UInt8, c &&& 0x80 = 0 ↔ c < 0x80 :=
  @forall_byte (fun c => c &&& 0x80 = 0 ↔ c < 0x80) (by decide +kernel)

/-- The test of `is_ascii` on a word is its test on the bytes. -/
theorem ascii_bytewise :
    Bytewise (fun payload => decide (payload &&& 0x8080808080808080 = 0))
      (fun c => decide (c &&& 0x80 = 0)) := by
  intro memory i
  have high : 0x8080808080808080 = decode ((List.range 8).map fun _ => (0x80 : UInt8)) := by
    decide
  rw [decide_eq_true_eq, high, ByteMemory.read, decode_and_eq_zero]
  simp only [List.mem_range, decide_eq_true_eq]

/-- The sizes and contents for which `is_ascii` ends, within the string, with the answer. -/
theorem isAscii_returns_iff (positive : 0 < size) :
    Returns (fun fuel => isAscii fuel memory size)
        (decide (∀ i, i < size → memory i < 0x80)) ↔
      size + 8 < 2 ^ 32 ∨ ∃ i, i < reachable (2 ^ 32) size ∧ 0x80 ≤ memory i := by
  have scanned :=
    @scan_returns_iff (2 ^ 32) size memory _ _ ascii_bytewise positive (by decide) (by decide)
  simp only [decide_eq_true_eq, decide_eq_false_iff_not] at scanned
  simpa only [isAscii, high_bit_clear, UInt8.not_lt] using scanned

/-- A string of seven letters. -/
theorem isAscii_returns_seven :
    Returns (fun fuel => isAscii fuel (fun _ => 65) 7)
        (decide (∀ i, i < 7 → (65 : UInt8) < 0x80)) ↔
      7 + 8 < 2 ^ 32 ∨ ∃ i, i < reachable (2 ^ 32) 7 ∧ (0x80 : UInt8) ≤ 65 :=
  isAscii_returns_iff (by decide)

/-- On four gigabytes of zeros the index wraps and the loop goes round for ever. -/
theorem isAscii_wraps :
    ¬ ∃ value, Returns (fun fuel => isAscii fuel (fun _ => 0) (2 ^ 32)) value := by
  rintro ⟨value, returned⟩
  refine scan_stuck ascii_bytewise (by decide) (by decide) (by decide) (by decide) ?_ value returned
  intro i reached
  decide

end Sysprog.Ascii
