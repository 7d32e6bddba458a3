import Sysprog.KvCache

namespace Sysprog.Kv

open CStrings

/-!
# The arithmetic of `hash`

`hash` computes in `int32_t`, with a remainder that keeps the sign of the dividend.  Here it
is computed again with every value checked for its range.  No check fails, whatever the
string: a round starts by reducing `val` below 2 ^ 24, so what it leaves is small enough for
the next round and for the change of sign at the end.
-/

/-- The values of an `int32_t`. -/
def FitsInt32 (value : Int) : Prop :=
  -2 ^ 31 ≤ value ∧ value < 2 ^ 31

instance (value : Int) : Decidable (FitsInt32 value) :=
  inferInstanceAs (Decidable (_ ∧ _))

/-- A value computed in `int32_t`; `none` is an overflow. -/
def int32 (value : Int) : Option Int :=
  if FitsInt32 value then some value else none

/-- A value that fits is computed. -/
theorem int32_of_fits {value : Int} (fits : FitsInt32 value) : int32 value = some value :=
  if_pos fits

/-- One round of the loop of `hash`, operation by operation. -/
def checkedRound (val : Int) (byte : UInt8) : Option Int := do
  let val ← int32 (val.tmod (2 ^ 24))
  let shifted ← int32 (val * 2 ^ 5)
  let sum ← int32 (shifted + val)
  int32 (sum + charValue byte)

/-- The conversion of an `int32_t` to a `size_t`. -/
def toSizeT (value : Int) : Nat :=
  (value % 2 ^ 64).toNat

/-- `hash`, operation by operation. -/
def checkedHash (word : CString) (max : Int) : Option Nat := do
  let val ← word.bytes.foldlM checkedRound 5381
  let remainder ← int32 (val.tmod max)
  if remainder < 0 then
    let negated ← int32 (-val)
    let remainder ← int32 (negated.tmod max)
    return toSizeT remainder
  else
    return toSizeT remainder

/-! ## The loop -/

/-- A remainder lies between the modulus and its negative. -/
private theorem tmod_bounds
    (val : Int)
    {modulus : Int}
    (positive : 0 < modulus) :
    -modulus < val.tmod modulus ∧ val.tmod modulus < modulus :=
  ⟨Int.lt_tmod_of_pos val positive, Int.tmod_lt_of_pos val positive⟩

/-- A `char` is a signed byte. -/
theorem charValue_bounds (byte : UInt8) : -128 ≤ charValue byte ∧ charValue byte < 128 := by
  have below := byte.toNat_lt
  unfold charValue
  split <;> omega

/-- What the loop leaves in `val`: less than half of an `int32_t`. -/
def Small (val : Int) : Prop :=
  -2 ^ 30 < val ∧ val < 2 ^ 30

/-- A round leaves a small value, whatever it started with. -/
theorem hashStep_small (val : Int) (byte : UInt8) : Small (hashStep val byte) := by
  obtain ⟨above, below⟩ := tmod_bounds val (show (0 : Int) < 2 ^ 24 by decide)
  obtain ⟨charAbove, charBelow⟩ := charValue_bounds byte
  simp only [Small, hashStep]
  omega

/-- No operation of a round overflows. -/
theorem checkedRound_eq (val : Int) (byte : UInt8) :
    checkedRound val byte = some (hashStep val byte) := by
  obtain ⟨above, below⟩ := tmod_bounds val (show (0 : Int) < 2 ^ 24 by decide)
  obtain ⟨charAbove, charBelow⟩ := charValue_bounds byte
  generalize reducedEq : val.tmod (2 ^ 24) = reduced at above below
  have reducedFits : FitsInt32 reduced := ⟨by omega, by omega⟩
  have shiftedFits : FitsInt32 (reduced * 2 ^ 5) := ⟨by omega, by omega⟩
  have sumFits : FitsInt32 (reduced * 2 ^ 5 + reduced) := ⟨by omega, by omega⟩
  have nextFits : FitsInt32 (reduced * 2 ^ 5 + reduced + charValue byte) :=
    ⟨by omega, by omega⟩
  simp only [checkedRound, hashStep, reducedEq, int32_of_fits reducedFits,
    int32_of_fits shiftedFits, int32_of_fits sumFits, int32_of_fits nextFits,
    Option.bind_eq_bind, Option.bind_some]
  rfl

/-- No operation of the loop overflows. -/
theorem checkedRounds_eq (bytes : List UInt8) (val : Int) :
    bytes.foldlM checkedRound val = some (bytes.foldl hashStep val) := by
  induction bytes generalizing val with
  | nil =>
      rfl
  | cons byte rest inductionHypothesis =>
      rw [List.foldlM_cons, checkedRound_eq, Option.bind_eq_bind, Option.bind_some,
        inductionHypothesis, List.foldl_cons]

/-- The loop keeps `val` small. -/
theorem hashSteps_small
    (bytes : List UInt8)
    {val : Int}
    (small : Small val) :
    Small (bytes.foldl hashStep val) := by
  induction bytes generalizing val with
  | nil =>
      exact small
  | cons byte rest inductionHypothesis =>
      exact inductionHypothesis (hashStep_small val byte)

/-! ## The index -/

/-- The last step of `hash` drops the sign of the remainder. -/
theorem hash_eq (word : CString) (max : Nat) :
    hash word max = ((word.bytes.foldl hashStep 5381).tmod max).natAbs := by
  simp only [hash, Int.neg_tmod]
  split <;> omega

/-- The index is below `max`. -/
theorem hash_lt (word : CString) {max : Nat} (positive : 0 < max) : hash word max < max := by
  rw [hash_eq, Int.natAbs_tmod, Int.natAbs_natCast]
  exact Nat.mod_lt _ positive

/-- An `int32_t` that is not negative keeps its value as a `size_t`. -/
theorem toSizeT_eq
    {value : Int}
    (nonnegative : 0 ≤ value)
    (fits : FitsInt32 value) :
    toSizeT value = value.toNat := by
  have below : value < 2 ^ 64 := by
    simp only [FitsInt32] at fits
    omega
  rw [toSizeT, Int.emod_eq_of_lt nonnegative below]

/-- No operation of `hash` overflows, for any `max` that is positive. -/
theorem checkedHash_eq
    (word : CString)
    {max : Nat}
    (positive : 0 < max)
    (fits : FitsInt32 max) :
    checkedHash word max = some (hash word max) := by
  have small : Small (word.bytes.foldl hashStep 5381) :=
    hashSteps_small word.bytes ⟨by decide, by decide⟩
  simp only [checkedHash, hash, checkedRounds_eq, Option.bind_eq_bind, Option.bind_some]
  generalize word.bytes.foldl hashStep 5381 = val at small ⊢
  obtain ⟨above, below⟩ := tmod_bounds val (Int.natCast_pos.mpr positive)
  have remainderFits : FitsInt32 (val.tmod max) := by
    simp only [FitsInt32] at fits ⊢
    omega
  rw [int32_of_fits remainderFits, Option.bind_some]
  by_cases negative : val.tmod max < 0
  · have negatedFits : FitsInt32 (-val) := by
      simp only [Small, FitsInt32] at small ⊢
      omega
    have indexFits : FitsInt32 ((-val).tmod max) := by
      rw [Int.neg_tmod]
      simp only [FitsInt32] at fits ⊢
      omega
    have nonnegative : 0 ≤ (-val).tmod max := by
      rw [Int.neg_tmod]
      omega
    simp only [if_pos negative, int32_of_fits negatedFits, int32_of_fits indexFits,
      Option.bind_some, toSizeT_eq nonnegative indexFits]
    rfl
  · simp only [if_neg negative, toSizeT_eq (Int.not_lt.mp negative) remainderFits]
    rfl

/-- A key that ends the loop with -95. -/
example :
    checkedHash ⟨[0x81, 0xf7, 0x05, 0x0f, 0x10, 0x80], by decide⟩ bucketCount = some 95 := by
  decide

/--
For every string, no value that `hash` computes leaves `int32_t`, and the index it returns
is that of a bucket.
-/
theorem hash_in_range (word : CString) :
    checkedHash word bucketCount = some (hash word bucketCount) ∧
      hash word bucketCount < bucketCount :=
  ⟨checkedHash_eq word (by decide) (by decide), hash_lt word (by decide)⟩

end Sysprog.Kv
