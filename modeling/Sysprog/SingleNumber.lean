import Mathlib.Algebra.BigOperators.Group.List.Lemmas
import Mathlib.Algebra.BigOperators.Ring.List
import Sysprog.BitSlicedCounter
import Sysprog.CountedLoop

namespace Sysprog.SingleNumber

open BitSlicedCounter CountedLoop

/-!
# The number that occurs once, `bitwise-1/single-num.c`

`generalSingleNumber` counts, modulo `k` and for every bit position, the numbers in which
the bit is set.  The counters are kept in bit planes.  `singleNumber` does the same for
`k = 3` with two words and rules of its own.
-/

/-! ## The functions -/

/-- An `int`. -/
abbrev Word := BitVec 32

/-- `__builtin_clz`, which is given a number other than zero. -/
def builtinClz (n : Word) : Nat :=
  31 - n.toNat.log2

/-- The array `op`: all ones where the bit of `k` is clear. -/
def resetOperands (k : Word) (msb : Nat) : Nat → Word :=
  forDown msb (fun _ => 0) fun i op =>
    Function.update op i (0xFFFFFFFF#32 * if (1#32 <<< i) &&& k = 0 then 1 else 0)

/-- The first loop over `i`: add the bits of a number to the counters. -/
def addNumber (msb : Nat) (num : Word) (x : Nat → Word) : Nat → Word :=
  forDown msb x fun i x =>
    let carry := forDown i num fun j carry => carry &&& x j
    Function.update x i (x i ^^^ carry)

/-- The second loop over `i`, and the complement behind it. -/
def resetMask (msb : Nat) (op x : Nat → Word) : Word :=
  ~~~ forDown msb 0xFFFFFFFF#32 fun i mask => mask &&& (x i ^^^ op i)

/-- The third loop over `i`. -/
def applyMask (msb : Nat) (mask : Word) (x : Nat → Word) : Nat → Word :=
  forDown msb x fun i x => Function.update x i (x i &&& mask)

/-- One round of the loop over `n`. -/
def countNumber (msb : Nat) (op x : Nat → Word) (num : Word) : Nat → Word :=
  let x := addNumber msb num x
  applyMask msb (resetMask msb op x) x

/-- `generalSingleNumber`; `none` is a failed assertion. -/
def generalSingleNumber (k : Word) (nums : List Word) : Option Word :=
  if k.toInt > 0 then
    let msb := 32 - builtinClz k
    let op := resetOperands k msb
    let x := nums.foldl (countNumber msb op) fun _ => 0
    some (x 0)
  else
    none

/-- The variables `lower` and `higher` of `singleNumber`. -/
structure Pair where
  lower : Word
  higher : Word

/-- One round of the loop of `singleNumber`. -/
def pairNumber (pair : Pair) (num : Word) : Pair :=
  let lower := pair.lower ^^^ num
  let lower := lower &&& ~~~ pair.higher
  let higher := pair.higher ^^^ num
  let higher := higher &&& ~~~ lower
  { lower := lower, higher := higher }

/-- `singleNumber`. -/
def singleNumber (nums : List Word) : Word :=
  (nums.foldl pairNumber { lower := 0, higher := 0 }).lower

/-! ## One round -/

section Round

variable {msb lane count : Nat} {k num : Word} {x op : Nat → Word}

/-- A loop that takes the conjunction of words, bit by bit. -/
theorem conjunction_getLsbD (rounds : Nat) (start : Word) (term : Nat → Word) :
    (forDown rounds start fun i word => word &&& term i).getLsbD lane =
      (start.getLsbD lane && decide (∀ i, i < rounds → (term i).getLsbD lane = true)) := by
  induction rounds generalizing start with
  | zero =>
      simp [forDown]
  | succ rounds inductionHypothesis =>
      rw [forDown, inductionHypothesis, BitVec.getLsbD_and, Bool.and_assoc]
      congr 1
      rw [Bool.eq_iff_iff]
      simp only [Bool.and_eq_true, decide_eq_true_eq]
      constructor
      · rintro ⟨last, lower⟩ index below
        rcases Nat.lt_or_eq_of_le (Nat.le_of_lt_succ below) with less | rfl
        · exact lower index less
        · exact last
      · intro all
        exact ⟨all rounds (by omega), fun index below => all index (by omega)⟩

/-- The counters behind the first loop over `i`. -/
theorem addNumber_counts
    (counts : Counts x msb lane count) :
    Counts (addNumber msb num x) msb lane (count + (num.getLsbD lane).toNat) := by
  apply counts.add
  intro plane inside
  have added := @forDown_update Word x msb
    (fun i x => x i ^^^ forDown i num fun j carry => carry &&& x j) ?_
  · rw [addNumber, added]
    simp only [if_pos inside, BitVec.getLsbD_xor, conjunction_getLsbD]
  · intro index cells others same
    have lower : ∀ rounds start, rounds ≤ index →
        (forDown rounds start fun j carry => carry &&& cells j) =
          forDown rounds start fun j carry => carry &&& others j := by
      intro rounds
      induction rounds with
      | zero =>
          intros
          rfl
      | succ rounds inductionHypothesis =>
          intro start within
          rw [forDown, forDown, same rounds (by omega)]
          exact inductionHypothesis _ (by omega)
    rw [same index (Nat.le_refl _), lower index num (Nat.le_refl _)]

/-- Operand `i` is all ones where bit `i` of `k` is clear, and zero elsewhere. -/
theorem resetOperands_getLsbD
    {plane : Nat}
    (inside : plane < msb)
    (lanes : lane < 32) :
    (resetOperands k msb plane).getLsbD lane = !k.getLsbD plane := by
  have stored := @forDown_update Word (fun _ => 0) msb
    (fun i _ => 0xFFFFFFFF#32 * if (1#32 <<< i) &&& k = 0 then 1 else 0)
    (fun _ _ _ _ => rfl)
  rw [resetOperands, stored]
  simp only [if_pos inside]
  have tested : (1#32 <<< plane) &&& k = 0 ↔ k.getLsbD plane = false := by
    constructor
    · intro clear
      have here := congrArg (fun word => word.getLsbD plane) clear
      by_cases wide : plane < 32
      · simpa [wide] using here
      · exact BitVec.getLsbD_of_ge _ _ (by omega)
    · intro clear
      apply BitVec.eq_of_getLsbD_eq
      intro bit below
      by_cases same : bit = plane
      · subst same
        simp [clear]
      · have other : (1#32).getLsbD (bit - plane) = decide (bit - plane = 0) := by
          simp
        rw [BitVec.getLsbD_and, BitVec.getLsbD_shiftLeft, other]
        by_cases less : bit < plane
        · simp [less]
        · simp [show ¬ bit - plane = 0 by omega]
  by_cases clear : k.getLsbD plane = false
  · rw [if_pos (tested.mpr clear), clear]
    have ones : ∀ bit, bit < 32 → (0xFFFFFFFF#32 * 1).getLsbD bit = true := by decide
    exact ones lane lanes
  · rw [if_neg (fun zero => clear (tested.mp zero)), (Bool.not_eq_false _).mp clear]
    simp

/-- The mask is clear where every plane is as the bit of `k` says. -/
theorem resetMask_getLsbD
    (lanes : lane < 32) :
    (resetMask msb op x).getLsbD lane =
      !decide (∀ plane, plane < msb → (x plane ^^^ op plane).getLsbD lane = true) := by
  have ones : ∀ bit, bit < 32 → (0xFFFFFFFF#32).getLsbD bit = true := by decide
  rw [resetMask, BitVec.getLsbD_not, conjunction_getLsbD, ones lane lanes, Bool.true_and,
    decide_eq_true lanes, Bool.true_and]

/-- A round adds the number's bit modulo `k`. -/
theorem countNumber_counts
    (lanes : lane < 32)
    (counts : Counts x msb lane count)
    (below : count < k.toNat)
    (fits : k.toNat < 2 ^ msb) :
    Counts (countNumber msb (resetOperands k msb) x num) msb lane
      ((count + (num.getLsbD lane).toNat) % k.toNat) := by
  have added := @addNumber_counts msb lane count num x counts
  generalize totalEq : count + (num.getLsbD lane).toNat = total at added
  have atMost : total ≤ k.toNat := by
    have single := (num.getLsbD lane).toNat_le
    omega
  -- The mask is clear in the lanes whose counter has become `k`.
  have reached :
      (∀ plane, plane < msb →
        (addNumber msb num x plane ^^^ resetOperands k msb plane).getLsbD lane = true) ↔
          total = k.toNat := by
    rw [← added.agree_iff (by omega) fits]
    refine forall_congr' fun plane => forall_congr' fun inside => ?_
    rw [BitVec.getLsbD_xor, resetOperands_getLsbD inside lanes, ← BitVec.testBit_toNat k]
    cases (addNumber msb num x plane).getLsbD lane <;> cases k.toNat.testBit plane <;> simp
  have masked := @Counts.mask _ _
    (countNumber msb (resetOperands k msb) x num) msb lane total
    (!decide (total = k.toNat)) added ?_
  · by_cases full : total = k.toNat
    · rw [decide_eq_true full] at masked
      rw [full, Nat.mod_self]
      exact masked
    · rw [decide_eq_false full] at masked
      rw [Nat.mod_eq_of_lt (by omega)]
      exact masked
  · intro plane inside
    have applied := @forDown_update Word (addNumber msb num x) msb
      (fun i cells => cells i &&& resetMask msb (resetOperands k msb) (addNumber msb num x)) ?_
    · rw [countNumber, applyMask, applied]
      simp only [if_pos inside, BitVec.getLsbD_and, resetMask_getLsbD lanes, reached]
    · intro index cells others same
      rw [same index (Nat.le_refl _)]

end Round

/-! ## All numbers -/

/-- The number of elements with a bit set. -/
def bitCount (nums : List Word) (lane : Nat) : Nat :=
  nums.countP fun num => num.getLsbD lane

/-- One more number adds its bit. -/
theorem bitCount_concat (nums : List Word) (num : Word) (lane : Nat) :
    bitCount (nums ++ [num]) lane = bitCount nums lane + (num.getLsbD lane).toNat := by
  rw [bitCount, bitCount, List.countP_append]
  cases bit : num.getLsbD lane <;> simp [bit]

section Whole

variable {lane : Nat} {k : Word}

/-- The planes count the numbers with a bit set, modulo `k`. -/
theorem counts_nums
    (nums : List Word)
    (lanes : lane < 32)
    (positive : 0 < k.toNat)
    {msb : Nat}
    (fits : k.toNat < 2 ^ msb) :
    Counts (nums.foldl (countNumber msb (resetOperands k msb)) fun _ => 0) msb lane
      (bitCount nums lane % k.toNat) := by
  induction nums using List.reverseRecOn with
  | nil =>
      rw [bitCount, List.countP_nil, Nat.zero_mod]
      exact counts_zero
  | append_singleton earlier num inductionHypothesis =>
      have counted := @countNumber_counts _ _ _ k num _ lanes inductionHypothesis
        (Nat.mod_lt _ positive) fits
      rw [List.foldl_append, bitCount_concat, ← Nat.mod_add_mod]
      exact counted

/-- The planes are as many as `k` has bits. -/
theorem lt_planes (positive : 0 < k.toNat) :
    k.toNat < 2 ^ (32 - builtinClz k) ∧ 0 < 32 - builtinClz k := by
  have small : k.toNat.log2 < 32 := (Nat.log2_lt (by omega)).mpr k.isLt
  have planes : 32 - builtinClz k = k.toNat.log2 + 1 := by
    rw [builtinClz]
    omega
  rw [planes]
  exact ⟨Nat.lt_log2_self, by omega⟩

/-- The bits that `generalSingleNumber` returns. -/
theorem generalSingleNumber_bits
    (positive : 0 < k.toInt)
    (nums : List Word) :
    ∃ result,
      generalSingleNumber k nums = some result ∧
        ∀ lane, lane < 32 →
          result.getLsbD lane = (bitCount nums lane % k.toNat).testBit 0 := by
  have nonzero : 0 < k.toNat := by
    have small := k.isLt
    rw [BitVec.toInt_eq_toNat_cond] at positive
    split at positive <;> omega
  obtain ⟨fits, plane⟩ := lt_planes nonzero
  refine ⟨_, if_pos positive, fun lane lanes => ?_⟩
  exact counts_nums nums lanes nonzero fits 0 plane

end Whole

/-! ## The number that is returned -/

/-- A set of values, each of which occurs a multiple of `k` times, does so as a whole. -/
theorem dvd_countP
    {nums : List Word}
    {k : Nat}
    (multiples : ∀ num, k ∣ nums.count num)
    (keep : Word → Bool) :
    k ∣ nums.countP keep := by
  rw [← List.sum_map_count_dedup_filter_eq_countP keep nums]
  apply List.dvd_sum
  intro count member
  obtain ⟨num, _, rfl⟩ := List.mem_map.mp member
  exact multiples num

/-- The bits of a value that occurs once modulo `k`, where all others occur `0` times. -/
theorem bitCount_mod
    {nums : List Word}
    {value : Word}
    {k : Nat}
    (single : nums.count value % k = 1)
    (multiples : ∀ other, other ≠ value → k ∣ nums.count other)
    (lane : Nat) :
    bitCount nums lane % k = (value.getLsbD lane).toNat := by
  have others : k ∣ (nums.filter (· ≠ value)).countP fun num => num.getLsbD lane := by
    apply dvd_countP
    intro num
    by_cases same : num = value
    · rw [same, List.count_eq_zero_of_not_mem (by simp)]
      exact Nat.dvd_zero k
    · rw [List.count_filter (by simpa using same)]
      exact multiples num same
  have own : (nums.filter (· = value)).countP (fun num => num.getLsbD lane) =
      nums.count value * (value.getLsbD lane).toNat := by
    have repeated : nums.filter (· = value) = List.replicate (nums.count value) value :=
      List.filter_eq value
    rw [repeated, List.countP_replicate]
    cases value.getLsbD lane <;> simp
  have split : bitCount nums lane =
      nums.count value * (value.getLsbD lane).toNat +
        (nums.filter (· ≠ value)).countP fun num => num.getLsbD lane := by
    rw [← own, bitCount, List.countP_eq_countP_filter_add nums _ (· = value)]
    simp
  rw [split, Nat.add_mod, Nat.mod_eq_zero_of_dvd others, Nat.add_zero, Nat.mod_mod, Nat.mul_mod,
    single, Nat.one_mul, Nat.mod_mod]
  have once : 1 % k = 1 := by
    have twice := Nat.mod_mod (nums.count value) k
    rwa [single] at twice
  cases value.getLsbD lane with
  | false => exact Nat.zero_mod k
  | true => exact once

/--
For every `k` from one on, bit `b` of the result is the lowest bit of the number of
elements with bit `b` set, modulo `k`.  So a value that occurs once modulo `k` is returned
where all others occur a multiple of `k` times.
-/
theorem generalSingleNumber_counts
    (k : Word)
    (nums : List Word)
    (positive : 1 ≤ k.toInt) :
    ∃ result,
      generalSingleNumber k nums = some result ∧
        (∀ bit, bit < 32 →
          result.getLsbD bit =
            ((nums.countP fun num => num.getLsbD bit) % k.toNat).testBit 0) ∧
        ∀ value,
          nums.count value % k.toNat = 1 →
          (∀ other, other ≠ value → k.toNat ∣ nums.count other) →
          result = value := by
  obtain ⟨result, returned, bits⟩ := generalSingleNumber_bits positive nums
  refine ⟨result, returned, bits, ?_⟩
  intro value single multiples
  apply BitVec.eq_of_getLsbD_eq
  intro lane lanes
  rw [bits lane lanes, bitCount_mod single multiples]
  cases value.getLsbD lane <;> rfl

theorem generalSingleNumber_counts_sample :
    generalSingleNumber 3#32 [2#32, 1#32, 2#32, 2#32] = some 1#32 := by
  obtain ⟨result, returned, _, single⟩ :=
    generalSingleNumber_counts 3#32 [2#32, 1#32, 2#32, 2#32] (by decide)
  have once := single 1#32 (by decide) ?_
  · rw [returned, once]
  · intro other different
    by_cases two : other = 2#32
    · rw [two]
      decide
    · rw [List.count_eq_zero_of_not_mem (by simp [two, different])]
      exact Nat.dvd_zero _

/-! ## Three of each -/

/-- The two words of `singleNumber` are the bits of a counter modulo three. -/
theorem pairNumber_bits
    {lane count : Nat}
    {pair : Pair}
    {num : Word}
    (lanes : lane < 32)
    (small : count < 3)
    (lower : pair.lower.getLsbD lane = count.testBit 0)
    (higher : pair.higher.getLsbD lane = count.testBit 1) :
    (pairNumber pair num).lower.getLsbD lane =
        ((count + (num.getLsbD lane).toNat) % 3).testBit 0 ∧
      (pairNumber pair num).higher.getLsbD lane =
        ((count + (num.getLsbD lane).toNat) % 3).testBit 1 := by
  simp only [pairNumber, BitVec.getLsbD_and, BitVec.getLsbD_xor, BitVec.getLsbD_not, lanes,
    decide_true, Bool.true_and, lower, higher]
  obtain rfl | rfl | rfl : count = 0 ∨ count = 1 ∨ count = 2 := by omega
  all_goals cases num.getLsbD lane <;> decide

/-- What the two words of `singleNumber` hold behind the loop. -/
theorem pair_bits
    (nums : List Word)
    {lane : Nat}
    (lanes : lane < 32) :
    (nums.foldl pairNumber { lower := 0, higher := 0 }).lower.getLsbD lane =
        (bitCount nums lane % 3).testBit 0 ∧
      (nums.foldl pairNumber { lower := 0, higher := 0 }).higher.getLsbD lane =
        (bitCount nums lane % 3).testBit 1 := by
  induction nums using List.reverseRecOn with
  | nil =>
      simp [bitCount]
  | append_singleton earlier num inductionHypothesis =>
      have counted := @pairNumber_bits lane _ _ num lanes (Nat.mod_lt _ (by decide))
        inductionHypothesis.1 inductionHypothesis.2
      rw [Nat.mod_add_mod] at counted
      rw [List.foldl_append, bitCount_concat]
      exact counted

/-- For every list, `singleNumber` is `generalSingleNumber` with `k = 3`. -/
theorem singleNumber_eq_general (nums : List Word) :
    generalSingleNumber 3#32 nums = some (singleNumber nums) := by
  obtain ⟨result, returned, bits⟩ := @generalSingleNumber_bits 3#32 (by decide) nums
  have same : result = singleNumber nums := by
    apply BitVec.eq_of_getLsbD_eq
    intro lane lanes
    rw [bits lane lanes]
    exact (pair_bits nums lanes).1.symm
  rw [returned, same]

end Sysprog.SingleNumber
