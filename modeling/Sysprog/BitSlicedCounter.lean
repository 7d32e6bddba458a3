import Mathlib.Data.Nat.Bitwise

namespace Sysprog.BitSlicedCounter

/-!
# Counters in bit planes

Many counters can be kept side by side in a few machine words: word `i` holds bit `i` of
every counter, and a counter is a lane across the words.  A carry chain adds a word of
single bits to all counters at once; comparing every plane with a bit of a limit finds the
counters that have reached it.
-/

variable {width : Nat}

/-- The counter in a lane of the first `size` planes is `count`. -/
def Counts (planes : Nat → BitVec width) (size lane count : Nat) : Prop :=
  ∀ plane, plane < size → (planes plane).getLsbD lane = count.testBit plane

/-- Adding one flips a bit exactly when all lower bits are set. -/
theorem testBit_succ_carry (count bit : Nat) :
    (count + 1).testBit bit =
      (count.testBit bit ^^ decide (∀ lower, lower < bit → count.testBit lower = true)) := by
  induction bit generalizing count with
  | zero =>
      have parity := Nat.mod_two_eq_zero_or_one count
      rcases parity with even | odd
      · simp [even, Nat.add_mod]
      · simp [odd, Nat.add_mod]
  | succ bit inductionHypothesis =>
      rw [Nat.testBit_add_one, Nat.testBit_add_one]
      rcases Nat.mod_two_eq_zero_or_one count with even | odd
      · have stopped : ¬ ∀ lower, lower < bit + 1 → count.testBit lower = true := by
          intro carried
          have lowest := carried 0 (by omega)
          simp [even] at lowest
        rw [decide_eq_false stopped, Bool.xor_false, show (count + 1) / 2 = count / 2 by omega]
      · have onward : (∀ lower, lower < bit + 1 → count.testBit lower = true) ↔
            ∀ lower, lower < bit → (count / 2).testBit lower = true := by
          constructor
          · intro carried lower below
            rw [← Nat.testBit_add_one]
            exact carried (lower + 1) (by omega)
          · intro carried lower below
            cases lower with
            | zero => simp [odd]
            | succ lower =>
                rw [Nat.testBit_add_one]
                exact carried lower (by omega)
        rw [show (count + 1) / 2 = count / 2 + 1 by omega, inductionHypothesis]
        simp only [onward]

section Planes

variable
  {planes later : Nat → BitVec width}
  {addend : BitVec width}
  {size lane count limit : Nat}

/-- Planes in which all bits are clear count zero. -/
theorem counts_zero : Counts (fun _ => (0 : BitVec width)) size lane 0 := by
  intro plane _
  simp

/-- A carry chain adds the lane's bit of the addend to its counter. -/
theorem Counts.add
    (counts : Counts planes size lane count)
    (added :
      ∀ plane, plane < size →
        (later plane).getLsbD lane =
          ((planes plane).getLsbD lane ^^
            (addend.getLsbD lane &&
              decide (∀ lower, lower < plane → (planes lower).getLsbD lane = true)))) :
    Counts later size lane (count + (addend.getLsbD lane).toNat) := by
  intro plane inside
  have carries :
      (∀ lower, lower < plane → (planes lower).getLsbD lane = true) ↔
        ∀ lower, lower < plane → count.testBit lower = true := by
    constructor
    · intro all lower below
      rw [← counts lower (by omega)]
      exact all lower below
    · intro all lower below
      rw [counts lower (by omega)]
      exact all lower below
  rw [added plane inside, counts plane inside]
  simp only [carries]
  cases addend.getLsbD lane with
  | false => simp
  | true => simp [testBit_succ_carry]

/-- All planes agree with the bits of a limit exactly when the counter has reached it. -/
theorem Counts.agree_iff
    (counts : Counts planes size lane count)
    (countFits : count < 2 ^ size)
    (limitFits : limit < 2 ^ size) :
    (∀ plane, plane < size → (planes plane).getLsbD lane = limit.testBit plane) ↔
      count = limit := by
  constructor
  · intro agree
    apply Nat.eq_of_testBit_eq
    intro plane
    by_cases inside : plane < size
    · rw [← counts plane inside, agree plane inside]
    · have wide : 2 ^ size ≤ 2 ^ plane := Nat.pow_le_pow_right (by decide) (by omega)
      rw [Nat.testBit_lt_two_pow (Nat.lt_of_lt_of_le countFits wide),
        Nat.testBit_lt_two_pow (Nat.lt_of_lt_of_le limitFits wide)]
  · rintro rfl
    exact counts

/-- Masking all planes clears a counter or keeps it. -/
theorem Counts.mask
    {keep : Bool}
    (counts : Counts planes size lane count)
    (masked :
      ∀ plane, plane < size → (later plane).getLsbD lane = ((planes plane).getLsbD lane && keep)) :
    Counts later size lane (if keep then count else 0) := by
  intro plane inside
  rw [masked plane inside, counts plane inside]
  cases keep <;> simp

end Planes

end Sysprog.BitSlicedCounter
