import Mathlib.Algebra.Order.Group.Nat
import Mathlib.Order.Interval.Finset.Nat
import Sysprog.FuelLoop

namespace Sysprog.BlockScan

open FuelLoop

/-!
# Scanning in blocks with an index of limited width

`while (i + stride <= size) { test; i += stride; }`, where `i` has a number of values of its
own.  While the sizes stay away from that number, the loop tests every whole block.  From
there on it goes round for ever or leaves what it was given, unless a block is rejected.
-/

/-- How a scan ends: outside of what it was given, at a rejected block, or at an index. -/
inductive Found where
  | outside
  | rejected
  | passed (i : Nat)
deriving DecidableEq

/-- One round of the loop. -/
def blockRound (indices stride size : Nat) (test : Nat → Bool) (i : Nat) : Round Nat Found :=
  if (i + stride) % indices ≤ size then
    if i + stride ≤ size then
      if test i then .again ((i + stride) % indices) else .leave .rejected
    else
      .leave .outside
  else
    .leave (.passed i)

variable {indices stride size fuel : Nat} {test : Nat → Bool}

/-- Between two neighbouring multiples of the stride there is none. -/
theorem le_of_lt_add
    {first second : Nat}
    (firstAligned : stride ∣ first)
    (secondAligned : stride ∣ second)
    (below : first < second + stride) :
    first ≤ second := by
  obtain ⟨a, rfl⟩ := firstAligned
  obtain ⟨b, rfl⟩ := secondAligned
  rw [← Nat.mul_succ] at below
  exact Nat.mul_le_mul_left stride (Nat.le_of_lt_succ (Nat.lt_of_mul_lt_mul_left below))

/-- Below the number of indices, every whole block is tested. -/
theorem block_scans
    (positive : 0 < stride)
    (narrow : size + stride < indices)
    (enough : size < fuel) :
    ∃ result,
      loop (blockRound indices stride size test) fuel 0 = some result ∧
        ((result = .rejected ∧ ∃ i, stride ∣ i ∧ i + stride ≤ size ∧ test i = false) ∨
          (result = .passed (size - size % stride) ∧
            ∀ i, stride ∣ i → i + stride ≤ size → test i = true)) := by
  refine @loop_correct _ _ _
    (fun bound i =>
      bound = size - i ∧ i ≤ size ∧ stride ∣ i ∧
        ∀ earlier, stride ∣ earlier → earlier < i → test earlier = true)
    _ ?_ size 0 ⟨rfl, Nat.zero_le _, Nat.dvd_zero _, by simp⟩ _ enough
  rintro bound i ⟨rfl, within, aligned, tested⟩
  have plain : (i + stride) % indices = i + stride := Nat.mod_eq_of_lt (by omega)
  rw [blockRound, plain]
  by_cases inside : i + stride ≤ size
  · rw [if_pos inside, if_pos inside]
    cases passes : test i with
    | false => exact Or.inl ⟨rfl, i, aligned, inside, passes⟩
    | true =>
        refine ⟨size - (i + stride), by omega, rfl, inside, Nat.dvd_add_self_right.mpr aligned, ?_⟩
        intro earlier earlierAligned below
        rcases Nat.lt_or_eq_of_le (le_of_lt_add earlierAligned aligned below) with less | rfl
        · exact tested earlier earlierAligned less
        · exact passes
  · rw [if_neg inside]
    refine Or.inr ⟨?_, ?_⟩
    · -- Less than one block is left.
      obtain ⟨blocks, rfl⟩ := aligned
      have rest : size % stride = size - stride * blocks := by
        rw [← Nat.mod_eq_of_lt (show size - stride * blocks < stride by omega),
          Nat.sub_mul_mod (by omega)]
      rw [rest, Nat.sub_sub_self within]
    · intro earlier earlierAligned ends
      exact tested earlier earlierAligned (by omega)

/-- A block that the index can reach and that is rejected ends the loop. -/
theorem block_rejects
    {bad : Nat}
    (positive : 0 < stride)
    (aligned : stride ∣ bad)
    (inside : bad + stride ≤ size)
    (reached : bad < indices)
    (fails : test bad = false)
    (enough : bad < fuel) :
    loop (blockRound indices stride size test) fuel 0 = some .rejected := by
  have round : ∀ bound i,
      (bound = bad - i ∧ i ≤ bad ∧ stride ∣ i) →
      RoundOk (fun bound i => bound = bad - i ∧ i ≤ bad ∧ stride ∣ i) (· = Found.rejected) bound
        (blockRound indices stride size test i) := by
    rintro bound i ⟨rfl, before, here⟩
    have next : (i + stride) % indices ≤ size :=
      Nat.le_trans (Nat.mod_le _ _) (by omega)
    rw [blockRound, if_pos next, if_pos (by omega)]
    cases passes : test i with
    | false => rfl
    | true =>
        have earlier : i < bad := by
          refine Nat.lt_of_le_of_ne before ?_
          rintro rfl
          rw [passes] at fails
          simp at fails
        have onward : i + stride ≤ bad := by
          by_contra close
          exact absurd (le_of_lt_add aligned here (by omega)) (by omega)
        rw [if_pos rfl, Nat.mod_eq_of_lt (by omega)]
        exact ⟨bad - (i + stride), by omega, rfl, onward, Nat.dvd_add_self_right.mpr here⟩
  obtain ⟨result, returned, rejected⟩ :=
    loop_correct _ _ round ⟨rfl, Nat.zero_le _, Nat.dvd_zero _⟩ enough
  rw [returned, rejected]

/-- If no block is rejected and the size is close to the number of indices, no index is left. -/
theorem block_stuck
    {result : Found}
    (positive : 0 < indices)
    (whole : stride ∣ indices)
    (wide : indices ≤ size + stride)
    (passes : ∀ i, stride ∣ i → i + stride ≤ size → i < indices → test i = true)
    (returned : loop (blockRound indices stride size test) fuel 0 = some result) :
    result = .outside := by
  refine @loop_returns_post _ _ _ (fun i => i < indices ∧ stride ∣ i) (· = Found.outside) ?_ 0
    ⟨positive, Nat.dvd_zero _⟩ _ _ returned
  rintro i ⟨within, aligned⟩
  have nextAligned : stride ∣ (i + stride) % indices :=
    (Nat.dvd_mod_iff whole).mpr (Nat.dvd_add_self_right.mpr aligned)
  have nextWithin : (i + stride) % indices < indices := Nat.mod_lt _ positive
  have next : (i + stride) % indices ≤ size := by
    by_contra beyond
    have last := le_of_lt_add whole nextAligned (by omega)
    omega
  rw [blockRound, if_pos next]
  by_cases inside : i + stride ≤ size
  · rw [if_pos inside, passes i aligned inside within]
    exact ⟨nextWithin, nextAligned⟩
  · rw [if_neg inside]
    rfl

end Sysprog.BlockScan
