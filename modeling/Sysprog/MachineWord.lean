import Mathlib.Tactic.Ring

namespace Sysprog.MachineWord

/-!
# Unsigned 64-bit arithmetic

`size_t` arithmetic on natural numbers: sums and differences are reduced modulo
`2 ^ 64`, and agree with plain arithmetic where nothing wraps.
-/

/-- The number of values of a `size_t`. -/
abbrev words : Nat := 2 ^ 64

/-- Addition of two `size_t`. -/
def add (a b : Nat) : Nat :=
  (a + b) % words

/-- Subtraction of two `size_t`. -/
def sub (a b : Nat) : Nat :=
  (a + (words - b % words)) % words

/-- A `size_t` shifted to the left. -/
def shiftLeft (a bits : Nat) : Nat :=
  (a <<< bits) % words

variable {a b : Nat}

theorem add_lt : add a b < words :=
  Nat.mod_lt _ (by decide)

/-- A sum that fits is the plain sum. -/
theorem add_of_lt (fits : a + b < words) : add a b = a + b :=
  Nat.mod_eq_of_lt fits

/-- A difference that does not go below zero is the plain difference. -/
theorem sub_of_le (fits : a < words) (ordered : b ≤ a) : sub a b = a - b := by
  rw [sub, Nat.mod_eq_of_lt (Nat.lt_of_le_of_lt ordered fits),
    show a + (words - b) = a - b + words by omega, Nat.add_mod_right]
  exact Nat.mod_eq_of_lt (by omega)

/-- A difference below zero wraps around once. -/
theorem sub_of_lt (fits : b < words) (below : a < b) : sub a b = words - (b - a) := by
  rw [sub, Nat.mod_eq_of_lt fits, show a + (words - b) = words - (b - a) by omega]
  exact Nat.mod_eq_of_lt (by omega)

/-- A sum beyond the width wraps around once. -/
theorem add_of_ge (wraps : words ≤ a + b) (once : a + b < 2 * words) :
    add a b = a + b - words := by
  rw [add, Nat.mod_eq_sub_mod wraps]
  exact Nat.mod_eq_of_lt (by omega)

/-- A power of two below the last bit is doubled. -/
theorem shiftLeft_pow {exponent : Nat} (small : exponent + 1 < 64) :
    shiftLeft (2 ^ exponent) 1 = 2 ^ (exponent + 1) := by
  rw [shiftLeft, Nat.shiftLeft_eq, ← Nat.pow_add]
  exact Nat.mod_eq_of_lt (Nat.pow_lt_pow_right (by decide) small)

/-- The last bit is shifted out. -/
theorem shiftLeft_last : shiftLeft (2 ^ 63) 1 = 0 := by
  decide

end Sysprog.MachineWord
