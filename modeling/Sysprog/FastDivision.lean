import Sysprog.MachineWord
import Sysprog.RoundedReciprocal

namespace Sysprog.FastDivision

open MachineWord RoundedReciprocal

/-!
# Remainders without division, `bitwise-1/div.c`

The divisor `D` is a constant of the program and a parameter here.  `D` and `n` are
`uint32_t`, the reciprocal `M` is a `uint64_t`.
-/

/-- The macro `M`. -/
def M (D : Nat) : Nat :=
  add (0xFFFFFFFFFFFFFFFF / D) 1

/-- `quickmod`: the product has 128 bits, and what is returned has 32. -/
def quickmod (D n : Nat) : Nat :=
  let quotient := ((M D * n % 2 ^ 128) >>> 64) % words
  sub n (quotient * D % words) % 2 ^ 32

/-- `divisible`, where the product wraps around. -/
def divisible (D n : Nat) : Bool :=
  decide (n * M D % words ≤ sub (M D) 1)

variable {D n : Nat}

/-- For a divisor above one the constant does not wrap. -/
theorem M_fits (divisor : 2 ≤ D) : M D = 0xFFFFFFFFFFFFFFFF / D + 1 ∧ M D ≤ 2 ^ 63 := by
  have half : 0xFFFFFFFFFFFFFFFF / D ≤ 0x7FFFFFFFFFFFFFFF :=
    Nat.le_trans (Nat.div_le_div_left divisor (by decide)) (by decide)
  have fits : 0xFFFFFFFFFFFFFFFF / D + 1 < words :=
    Nat.lt_of_le_of_lt (Nat.add_le_add_right half 1) (by decide)
  rw [M, add_of_lt fits]
  exact ⟨rfl, Nat.add_le_add_right half 1⟩

/-- The constant is the rounded reciprocal. -/
theorem M_eq (divisor : 2 ≤ D) : M D = reciprocal words D :=
  (M_fits divisor).1

/-- Two numbers of 32 bits have a product that fits the radix. -/
theorem product_le (divisor : D < 2 ^ 32) (argument : n < 2 ^ 32) : n * D ≤ words :=
  calc
    n * D ≤ 2 ^ 32 * 2 ^ 32 :=
      Nat.mul_le_mul (Nat.le_of_lt argument) (Nat.le_of_lt divisor)
    _ = words := by decide

/-- `quickmod` is the remainder. -/
theorem quickmod_eq (lower : 2 ≤ D) (upper : D < 2 ^ 32) (argument : n < 2 ^ 32) :
    quickmod D n = n % D := by
  have positive : 0 < D := by omega
  have bound := (M_fits lower).2
  have wide : M D * n < 2 ^ 128 :=
    Nat.lt_of_le_of_lt (Nat.mul_le_mul bound (Nat.le_of_lt argument)) (by decide)
  have quotient : M D * n / words = n / D := by
    rw [M_eq lower]
    exact (product_parts (by decide) positive (product_le upper argument)).1
  have fits : n < words := Nat.lt_trans argument (by decide)
  have back : n / D * D ≤ n := Nat.div_mul_le_self n D
  have whole := Nat.div_add_mod n D
  rw [Nat.mul_comm] at whole
  rw [quickmod, Nat.mod_eq_of_lt wide, Nat.shiftRight_eq_div_pow, quotient,
    Nat.mod_eq_of_lt (Nat.lt_of_le_of_lt (Nat.div_le_self n D) fits),
    Nat.mod_eq_of_lt (Nat.lt_of_le_of_lt back fits), sub_of_le fits back,
    Nat.mod_eq_of_lt (by omega)]
  omega

/-- `divisible` tells the multiples. -/
theorem divisible_iff (lower : 2 ≤ D) (upper : D < 2 ^ 32) (argument : n < 2 ^ 32) :
    divisible D n = true ↔ D ∣ n := by
  obtain ⟨value, bound⟩ := M_fits lower
  have positive : 0 < M D := value ▸ Nat.succ_pos _
  have divides : 0 < D := by omega
  have narrow : M D < words := Nat.lt_of_le_of_lt bound (by decide)
  rw [divisible, decide_eq_true_iff, sub_of_le narrow positive,
    Nat.le_sub_one_iff_lt positive, Nat.mul_comm, M_eq lower]
  exact low_lt_iff (by decide) divides (product_le upper argument)

/-- For every divisor above one and every argument both functions are right. -/
theorem division_correct
    (lower : 2 ≤ D)
    (upper : D < 2 ^ 32)
    (argument : n < 2 ^ 32) :
    quickmod D n = n % D ∧ (divisible D n = true ↔ D ∣ n) :=
  ⟨quickmod_eq lower upper argument, divisible_iff lower upper argument⟩

theorem division_correct_ten :
    quickmod 10 4294967295 = 4294967295 % 10 ∧
      (divisible 10 4294967295 = true ↔ 10 ∣ 4294967295) :=
  division_correct (by decide) (by decide) (by decide)

end Sysprog.FastDivision
