import Mathlib.Tactic.Ring

namespace Sysprog.RoundedReciprocal

/-!
# Division by a rounded reciprocal

With `radix` units for one, the reciprocal of a divisor is rounded up to a whole number of
units.  A product with it is too large by the rounding error of every unit of the factor;
as long as these errors stay below one unit of the radix, the high part of the product is
the quotient, and its low part tells the remainder.
-/

variable {radix divisor n : Nat}

/-- The least number of units that is not below `radix / divisor`. -/
def reciprocal (radix divisor : Nat) : Nat :=
  (radix - 1) / divisor + 1

/-- The units that `divisor` reciprocals have above the radix. -/
def error (radix divisor : Nat) : Nat :=
  reciprocal radix divisor * divisor - radix

/-- As many reciprocals as the divisor says are the radix and an error below the divisor. -/
theorem reciprocal_mul (positive : 0 < radix) (divides : 0 < divisor) :
    reciprocal radix divisor * divisor = radix + error radix divisor ∧
      error radix divisor < divisor := by
  have parts := Nat.div_add_mod (radix - 1) divisor
  have rest := Nat.mod_lt (radix - 1) divides
  have product :
      reciprocal radix divisor * divisor =
        divisor * ((radix - 1) / divisor) + divisor := by
    rw [reciprocal]
    ring
  rw [error, product]
  omega

/-- The errors of all units of the factor together stay below the radix. -/
theorem error_mul_lt (positive : 0 < radix) (divides : 0 < divisor)
    (small : n * divisor ≤ radix) :
    error radix divisor * n < radix := by
  rcases Nat.eq_zero_or_pos n with none | some
  · rw [none]
    exact positive
  · calc
      error radix divisor * n < divisor * n :=
        Nat.mul_lt_mul_of_pos_right (reciprocal_mul positive divides).2 some
      _ ≤ radix := by rwa [Nat.mul_comm]

/--
The product is the quotient in units of the radix and a low part below the radix, and
the low part, taken as often as the divisor says, is the remainder in units of the radix
and the errors.
-/
theorem product_parts (positive : 0 < radix) (divides : 0 < divisor)
    (small : n * divisor ≤ radix) :
    reciprocal radix divisor * n / radix = n / divisor ∧
      divisor * (reciprocal radix divisor * n % radix) =
        radix * (n % divisor) + error radix divisor * n := by
  have errors := error_mul_lt positive divides small
  have rounded := (reciprocal_mul positive divides).1
  have remainder := Nat.mod_lt n divides
  have whole := Nat.div_add_mod n divisor
  -- Scaled by the divisor, the product has no reciprocal in it any more.
  have scaled :
      divisor * (reciprocal radix divisor * n) =
        radix * (divisor * (n / divisor)) +
          (radix * (n % divisor) + error radix divisor * n) := by
    calc
      divisor * (reciprocal radix divisor * n) =
          reciprocal radix divisor * divisor * n := by ring
      _ = radix * n + error radix divisor * n := by rw [rounded]; ring
      _ = radix * (divisor * (n / divisor) + n % divisor) + error radix divisor * n := by
          rw [whole]
      _ = _ := by ring
  have below :
      radix * (n % divisor) + error radix divisor * n < radix * divisor := by
    have step : radix * (n % divisor + 1) ≤ radix * divisor :=
      Nat.mul_le_mul_left radix remainder
    rw [Nat.mul_add] at step
    omega
  have quotient : reciprocal radix divisor * n / radix = n / divisor := by
    rw [← Nat.mul_div_mul_left _ radix divides, scaled, Nat.mul_comm divisor radix,
      show radix * (divisor * (n / divisor)) = radix * divisor * (n / divisor) by ring,
      Nat.mul_add_div (Nat.mul_pos positive divides), Nat.div_eq_of_lt below, Nat.add_zero]
  refine ⟨quotient, ?_⟩
  have split := Nat.div_add_mod (reciprocal radix divisor * n) radix
  rw [quotient] at split
  rw [← split, Nat.mul_add] at scaled
  have same :
      divisor * (radix * (n / divisor)) = radix * (divisor * (n / divisor)) := by
    ring
  omega

/-- The low part of the product is below the reciprocal exactly for the multiples. -/
theorem low_lt_iff (positive : 0 < radix) (divides : 0 < divisor)
    (small : n * divisor ≤ radix) :
    reciprocal radix divisor * n % radix < reciprocal radix divisor ↔ divisor ∣ n := by
  have low := (product_parts positive divides small).2
  have rounded := (reciprocal_mul positive divides).1
  have scaled :
      reciprocal radix divisor * n % radix < reciprocal radix divisor ↔
        divisor * (reciprocal radix divisor * n % radix) <
          radix + error radix divisor := by
    rw [← rounded, Nat.mul_comm (reciprocal radix divisor) divisor,
      Nat.mul_lt_mul_left divides]
  rw [scaled, low, Nat.dvd_iff_mod_eq_zero]
  constructor
  · intro less
    by_contra remains
    -- A factor with a remainder is not zero, so its errors reach those of the reciprocal.
    have factor : 1 ≤ n := by
      rcases Nat.eq_zero_or_pos n with none | some
      · exact absurd (by rw [none, Nat.zero_mod]) remains
      · exact some
    have unit : radix * 1 ≤ radix * (n % divisor) :=
      Nat.mul_le_mul_left radix (Nat.one_le_iff_ne_zero.mpr remains)
    have errors : error radix divisor * 1 ≤ error radix divisor * n :=
      Nat.mul_le_mul_left _ factor
    omega
  · intro multiple
    have errors := error_mul_lt positive divides small
    rw [multiple]
    omega

end Sysprog.RoundedReciprocal
