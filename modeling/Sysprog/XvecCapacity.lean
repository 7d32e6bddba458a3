import Mathlib.Data.Nat.Log
import Mathlib.Tactic.IntervalCases
import Mathlib.Tactic.NormNum
import Sysprog.XvecModel

namespace Sysprog.Xvec

open Execution

/-!
# Capacities of the shipped build

With `POW_FACTOR` the stored exponent stands for `4 * ceil(1.5 ^ n)` elements.
`__vec_push_back` and `__vec_insert` allocate by that rule; `__vec_reserve`
allocates a power of two and stores its exponent.  This module says exactly
which calls keep the size, the capacity and the allocation consistent.
-/

/-! ## Exponents -/

/-- For a nonzero word `ilog2` is the rounded-up binary logarithm. -/
theorem ilog2_eq_clog
    {n : Nat}
    (positive : 0 < n)
    (word : n < 2 ^ 64) :
    ilog2 n = Nat.clog 2 n := by
  have nonzero : n ≠ 0 := Nat.ne_of_gt positive
  have lowerPower : 2 ^ n.log2 ≤ n := Nat.log2_self_le nonzero
  have upperPower : n < 2 ^ (n.log2 + 1) := Nat.lt_log2_self
  have logBound : n.log2 < 64 := (Nat.log2_lt nonzero).mpr word
  by_cases power : n &&& (n - 1) = 0
  · obtain ⟨exponent, rfl⟩ :=
      (Nat.and_sub_one_eq_zero_iff_isPowerOfTwo nonzero).mp power
    rw [Nat.clog_pow 2 exponent (by decide)]
    simp only [ilog2, clzl, power, ↓reduceIte, Nat.log2_two_pow] at logBound ⊢
    omega
  · have strict : 2 ^ n.log2 < n := by
      apply Nat.lt_of_le_of_ne lowerPower
      intro same
      apply power
      rw [Nat.and_sub_one_eq_zero_iff_isPowerOfTwo nonzero]
      exact ⟨n.log2, same.symm⟩
    have above : n.log2 < Nat.clog 2 n :=
      (Nat.lt_clog_iff_pow_lt (by decide)).mpr strict
    have below : Nat.clog 2 n ≤ n.log2 + 1 :=
      (Nat.clog_le_iff_le_pow (by decide)).mpr (Nat.le_of_lt upperPower)
    simp only [ilog2, clzl, power, ↓reduceIte]
    omega

/-- `1.5 ^ n` rounded up. -/
private def roundedPower (n : Nat) : Nat :=
  (3 ^ n + 2 ^ n - 1) / 2 ^ n

private theorem roundedPower_le_iff {n bound : Nat} :
    roundedPower n ≤ bound ↔ 3 ^ n ≤ bound * 2 ^ n := by
  have positive : 0 < 2 ^ n := Nat.two_pow_pos n
  rw [roundedPower, Nat.div_le_iff_le_mul_add_pred positive, Nat.mul_comm]
  omega

private theorem toCapacity_powFactor (n : Nat) :
    toCapacity .powFactor n = roundedPower n * 4 :=
  rfl

/-- The rounded power is the least integer not below `1.5 ^ n`. -/
private theorem roundedPower_bounds (n : Nat) :
    3 ^ n ≤ roundedPower n * 2 ^ n ∧
      (roundedPower n - 1) * 2 ^ n < 3 ^ n := by
  constructor
  · exact roundedPower_le_iff.mp (Nat.le_refl _)
  · by_contra small
    have belowItself := roundedPower_le_iff.mpr (Nat.le_of_not_lt small)
    have vanishes : roundedPower n = 0 := by omega
    have powerBound : 3 ^ n ≤ 0 * 2 ^ n := roundedPower_le_iff.mp (by omega)
    have positive : 0 < 3 ^ n := Nat.pow_pos (by decide)
    omega

/-- One more exponent is always a larger capacity. -/
theorem toCapacity_lt_succ (n : Nat) :
    toCapacity .powFactor n < toCapacity .powFactor (n + 1) := by
  match n with
  | 0 => decide
  | 1 => decide
  | n + 2 =>
      -- From the third exponent on, half of `1.5 ^ n` is more than one.
      have powers : 2 ^ n ≤ 3 ^ n := Nat.pow_le_pow_left (by decide) n
      have three : 3 ≤ roundedPower (n + 2) := by
        by_contra small
        have bounded : 3 ^ (n + 2) ≤ 2 * 2 ^ (n + 2) :=
          roundedPower_le_iff.mp (by omega)
        have positive : 0 < 2 ^ n := Nat.two_pow_pos n
        rw [Nat.pow_add, Nat.pow_add] at bounded
        omega
      have grows : roundedPower (n + 2) < roundedPower (n + 3) := by
        by_contra small
        have bounded : 3 ^ (n + 3) ≤ roundedPower (n + 2) * 2 ^ (n + 3) :=
          roundedPower_le_iff.mp (by omega)
        have lower := (roundedPower_bounds (n + 2)).2
        obtain ⟨excess, shape⟩ := Nat.exists_eq_add_of_le three
        rw [shape] at bounded lower
        have splitThree : 3 ^ (n + 3) = 3 * 3 ^ (n + 2) := by ring
        have splitTwo : 2 ^ (n + 3) = 2 * 2 ^ (n + 2) := by ring
        have expandLower :
            (3 + excess - 1) * 2 ^ (n + 2) =
              2 * 2 ^ (n + 2) + excess * 2 ^ (n + 2) := by
          rw [show 3 + excess - 1 = 2 + excess by omega]
          ring
        have expandUpper :
            (3 + excess) * (2 * 2 ^ (n + 2)) =
              6 * 2 ^ (n + 2) + 2 * (excess * 2 ^ (n + 2)) := by
          ring
        rw [expandLower] at lower
        rw [splitThree, splitTwo, expandUpper] at bounded
        omega
      rw [toCapacity_powFactor, toCapacity_powFactor]
      exact Nat.mul_lt_mul_of_pos_right grows (by decide)

example : (List.range 8).map (toCapacity .powFactor) = [4, 8, 12, 16, 24, 32, 48, 72] := by
  decide

/-- Larger exponents have larger capacities. -/
theorem toCapacity_mono
    {first second : Nat}
    (ordered : first ≤ second) :
    toCapacity .powFactor first ≤ toCapacity .powFactor second :=
  monotone_nat_of_le_succ (fun n => Nat.le_of_lt (toCapacity_lt_succ n)) ordered

/-- From the exponent eight on, the capacity is at most half the power of two. -/
theorem toCapacity_le_half
    {n : Nat}
    (large : 8 ≤ n) :
    toCapacity .powFactor n ≤ 2 ^ (n - 1) := by
  obtain ⟨extra, rfl⟩ := Nat.exists_eq_add_of_le large
  have rounded : roundedPower (8 + extra) ≤ 2 ^ (5 + extra) := by
    rw [roundedPower_le_iff]
    calc
      3 ^ (8 + extra) = 3 ^ 8 * 3 ^ extra := Nat.pow_add 3 8 extra
      _ ≤ 2 ^ 13 * 4 ^ extra :=
        Nat.mul_le_mul (by decide) (Nat.pow_le_pow_left (by decide) extra)
      _ = 2 ^ 13 * 2 ^ (2 * extra) := by rw [Nat.pow_mul]
      _ = 2 ^ (5 + extra) * 2 ^ (8 + extra) := by
        rw [← Nat.pow_add, ← Nat.pow_add]
        congr 1
        omega
  rw [toCapacity_powFactor]
  calc
    roundedPower (8 + extra) * 4 ≤ 2 ^ (5 + extra) * 2 ^ 2 :=
      Nat.mul_le_mul_right 4 rounded
    _ = 2 ^ (8 + extra - 1) := by
      rw [← Nat.pow_add]
      congr 1
      omega

/-- The stored exponent never stands for more elements than the size field can count. -/
theorem toCapacity_lt_size_field
    {n : Nat}
    (field : n < 2 ^ 6) :
    toCapacity .powFactor n + 1 < 2 ^ 54 := by
  have bounded : toCapacity .powFactor n ≤ toCapacity .powFactor 63 :=
    toCapacity_mono (by omega)
  have largest : toCapacity .powFactor 63 + 1 < 2 ^ 54 := by
    decide
  omega

/-! ## What one call does to the bookkeeping -/

/-- The size is within the capacity and the capacity within the allocation. -/
structure InBounds (decl : Decl) (vector : Vec) : Prop where
  sizeBound : vector.size ≤ vecCapacity decl vector
  capacityBound : vecCapacity decl vector ≤ allocatedElements decl vector

/-- What a call has to achieve: bounds, and for `vec_reserve` the requested room. -/
def Sound (decl : Decl) (op : Op) (after : Vec) : Prop :=
  InBounds decl after ∧
    ∀ n allocation, op = .reserve n allocation → n ≤ vecCapacity decl after

/--
The lengths whose power of two allocation agrees with the capacity read back from
the stored exponent: the exponents 5, 6 and 7, up to the capacities 32, 48 and 72.
-/
def ReservableLength (n : Nat) : Prop :=
  (17 ≤ n ∧ n ≤ 48) ∨ (65 ≤ n ∧ n ≤ 72)

/--
The calls of the shipped build that keep the bookkeeping: a `vec_reserve` is
without effect or asks for one of the lengths above, and a growing `vec_push_back`
or `vec_insert` stays within the exponent field.  Byte counts must not wrap.
-/
def Safe (decl : Decl) (before : Vec) : Op → Prop
  | .reserve n _ =>
      n ≤ vecCapacity decl before ∨
        (ReservableLength n ∧ decl.element.size * 2 ^ ilog2 n < 2 ^ 64)
  | .pushBack _ _ | .insert _ _ _ =>
      before.size ≠ vecCapacity decl before ∨
        (¬ (before.onHeap = true ∧ before.capacity = 63) ∧
          decl.element.size *
              toCapacity decl.build (if before.onHeap then before.capacity + 1 else 1) <
            2 ^ 64)
  | .erase _ => True
  | .popBack => True

/-- Capacity and room depend on the bookkeeping fields alone. -/
theorem InBounds.congr
    {decl : Decl}
    {vector other : Vec}
    (bounds : InBounds decl vector)
    (onHeap : other.onHeap = vector.onHeap)
    (capacity : other.capacity = vector.capacity)
    (allocated : other.allocated = vector.allocated)
    (smaller : other.size ≤ vector.size) :
    InBounds decl other where
  sizeBound := by
    have bound := bounds.sizeBound
    simp only [vecCapacity, onHeap, capacity] at bound ⊢
    omega
  capacityBound := by
    have bound := bounds.capacityBound
    simpa only [vecCapacity, allocatedElements, onHeap, capacity, allocated] using bound

/-- A heap buffer of `bytes` holds `room` elements exactly when the bytes suffice. -/
private theorem heap_inBounds_iff
    {decl : Decl}
    {vector : Vec}
    (onHeap : vector.onHeap = true) :
    InBounds decl vector ↔
      vector.size ≤ toCapacity decl.build vector.capacity ∧
        toCapacity decl.build vector.capacity * decl.element.size ≤ vector.allocated := by
  have positive := decl.element.sizePositive
  constructor
  · intro bounds
    have sizeBound := bounds.sizeBound
    have capacityBound := bounds.capacityBound
    simp only [vecCapacity, allocatedElements, onHeap, ↓reduceIte] at sizeBound capacityBound
    exact ⟨sizeBound, (Nat.le_div_iff_mul_le positive).mp capacityBound⟩
  · rintro ⟨sizeBound, roomBound⟩
    constructor
    · simpa only [vecCapacity, onHeap, ↓reduceIte] using sizeBound
    · simpa only [vecCapacity, allocatedElements, onHeap, ↓reduceIte] using
        (Nat.le_div_iff_mul_le positive).mpr roomBound

/-- The exponent the growth code stores next. -/
private def nextExponent (vector : Vec) : Nat :=
  if vector.onHeap then vector.capacity + 1 else 1

/--
The bookkeeping fields after the growth code ran on a full vector: the buffer is on
the heap, one exponent up.
-/
private theorem growIfFull_full
    {decl : Decl}
    {vector : Vec}
    {allocation : Allocation}
    (powFactor : decl.build = .powFactor)
    (full : vector.size = vecCapacity decl vector) :
    let grown := growIfFull decl vector allocation
    let exponent := nextExponent vector % 2 ^ 6
    grown.size = vector.size ∧ grown.onHeap = true ∧ grown.capacity = exponent ∧
      grown.allocated =
        decl.element.size * toCapacity .powFactor exponent % 2 ^ 64 := by
  cases onHeap : vector.onHeap <;>
    simp [growIfFull, full, onHeap, nextExponent, reallocate, moveToHeap,
      expandCapacity, powFactor]

/-- Every capacity of the shipped build fits the size field. -/
private theorem vecCapacity_lt_size_field
    {decl : Decl}
    {vector : Vec}
    (powFactor : decl.build = .powFactor)
    (field : vector.capacity < 2 ^ 6) :
    vecCapacity decl vector + 1 < 2 ^ 54 := by
  unfold vecCapacity
  split
  · rw [powFactor]
    exact toCapacity_lt_size_field field
  · simp [Decl.slots, powFactor, stackSize]

/-- The growth code goes to a strictly larger capacity. -/
private theorem vecCapacity_lt_next
    {decl : Decl}
    {vector : Vec}
    (powFactor : decl.build = .powFactor) :
    vecCapacity decl vector < toCapacity .powFactor (nextExponent vector) := by
  unfold vecCapacity nextExponent
  split
  · rw [powFactor]
    exact toCapacity_lt_succ vector.capacity
  · simp only [Decl.slots, powFactor, stackSize]
    decide

/--
Adding one element through the growth code keeps the bounds exactly when the call
is safe.  `after` is any result that differs from the grown vector in its contents
and its incremented size only.
-/
private theorem addElement_inBounds_iff
    {decl : Decl}
    {before after : Vec}
    {allocation : Allocation}
    (powFactor : decl.build = .powFactor)
    (field : before.capacity < 2 ^ 6)
    (bounds : InBounds decl before)
    (size : after.size = ((growIfFull decl before allocation).size + 1) % 2 ^ 54)
    (onHeap : after.onHeap = (growIfFull decl before allocation).onHeap)
    (capacity : after.capacity = (growIfFull decl before allocation).capacity)
    (allocated : after.allocated = (growIfFull decl before allocation).allocated) :
    InBounds decl after ↔
      before.size ≠ vecCapacity decl before ∨
        (¬ (before.onHeap = true ∧ before.capacity = 63) ∧
          decl.element.size * toCapacity decl.build (nextExponent before) < 2 ^ 64) := by
  by_cases full : before.size = vecCapacity decl before
  · obtain ⟨grownSize, grownOnHeap, grownCapacity, grownAllocated⟩ :=
      @growIfFull_full decl before allocation powFactor full
    rw [heap_inBounds_iff (onHeap.trans grownOnHeap), size, capacity, allocated,
      grownSize, grownCapacity, grownAllocated, powFactor]
    have sizeField : before.size + 1 < 2 ^ 54 := by
      rw [full]
      exact vecCapacity_lt_size_field powFactor field
    rw [Nat.mod_eq_of_lt sizeField]
    by_cases last : before.onHeap = true ∧ before.capacity = 63
    · -- The exponent field wraps to zero, which stands for four elements.
      have wrapped : nextExponent before % 2 ^ 6 = 0 := by
        simp [nextExponent, last.1, last.2]
      have filled : before.size = toCapacity .powFactor 63 := by
        rw [full, vecCapacity, last.1, last.2, powFactor]
        simp
      have tooMany : ¬ before.size + 1 ≤ toCapacity .powFactor 0 := by
        rw [filled]
        decide
      rw [wrapped]
      apply iff_of_false
      · rintro ⟨room, _⟩
        exact tooMany room
      · rintro (notFull | ⟨notLast, _⟩)
        · exact notFull full
        · exact notLast last
    · have nextField : nextExponent before < 2 ^ 6 := by
        unfold nextExponent
        split
        · rename_i heap
          have : before.capacity ≠ 63 := fun same => last ⟨heap, same⟩
          omega
        · decide
      have roomForOne :
          before.size + 1 ≤ toCapacity .powFactor (nextExponent before) := by
        rw [full]
        exact vecCapacity_lt_next powFactor
      rw [Nat.mod_eq_of_lt nextField]
      constructor
      · rintro ⟨_, enough⟩
        have reduced :
            decl.element.size * toCapacity .powFactor (nextExponent before) % 2 ^ 64 <
              2 ^ 64 :=
          Nat.mod_lt _ (by decide)
        rw [Nat.mul_comm (toCapacity .powFactor (nextExponent before))] at enough
        exact Or.inr ⟨last, by omega⟩
      · rintro (notFull | ⟨_, fits⟩)
        · exact (notFull full).elim
        · refine ⟨roomForOne, ?_⟩
          rw [Nat.mod_eq_of_lt fits, Nat.mul_comm]
  · have unchanged : growIfFull decl before allocation = before := by
      simp [growIfFull, full]
    rw [unchanged] at size onHeap capacity allocated
    have strict : before.size < vecCapacity decl before :=
      Nat.lt_of_le_of_ne bounds.sizeBound full
    have sizeField := vecCapacity_lt_size_field powFactor field
    have grownSize : after.size = before.size + 1 := by
      rw [size]
      exact Nat.mod_eq_of_lt (by omega)
    simp only [ne_eq, full, not_false_eq_true, true_or, iff_true]
    constructor
    · simp only [vecCapacity, onHeap, capacity, grownSize] at strict ⊢
      omega
    · have bound := bounds.capacityBound
      simpa only [vecCapacity, allocatedElements, onHeap, capacity, allocated] using bound

/-- The lengths for which the stored exponent reads back as enough and not too much room. -/
private theorem reservableLength_iff
    {n : Nat}
    (large : 4 < n) :
    n ≤ toCapacity .powFactor (Nat.clog 2 n) ∧
        toCapacity .powFactor (Nat.clog 2 n) ≤ 2 ^ Nat.clog 2 n ↔
      ReservableLength n := by
  have upper : n ≤ 2 ^ Nat.clog 2 n := Nat.le_pow_clog (by decide) n
  have lower : 2 ^ (Nat.clog 2 n - 1) < n :=
    Nat.pow_pred_clog_lt_self (by decide) (by omega)
  by_cases eight : 8 ≤ Nat.clog 2 n
  · have half := toCapacity_le_half eight
    have beyond : 2 ^ 7 ≤ 2 ^ (Nat.clog 2 n - 1) :=
      Nat.pow_le_pow_right (by decide) (by omega)
    unfold ReservableLength
    omega
  · have small : Nat.clog 2 n < 8 := by omega
    generalize Nat.clog 2 n = exponent at upper lower small
    unfold ReservableLength
    interval_cases exponent <;>
      simp [toCapacity] at upper lower ⊢ <;>
      omega

/-- A reservable length needs an exponent of at most seven. -/
private theorem clog_of_reservable
    {n : Nat}
    (reservable : ReservableLength n) :
    Nat.clog 2 n ≤ 7 := by
  apply Nat.clog_le_of_le_pow
  unfold ReservableLength at reservable
  omega

/--
When the capacity read back from the exponent is enough for a reservable length and
within the allocated bytes, the byte count did not wrap.
-/
private theorem bytes_of_room
    {n width : Nat}
    (large : 4 < n)
    (reservable : ReservableLength n)
    (room :
      toCapacity .powFactor (Nat.clog 2 n) * width ≤ width * 2 ^ Nat.clog 2 n % 2 ^ 64) :
    width * 2 ^ Nat.clog 2 n < 2 ^ 64 := by
  have seven := clog_of_reservable reservable
  have upper : n ≤ 2 ^ Nat.clog 2 n := Nat.le_pow_clog (by decide) n
  have lower : 2 ^ (Nat.clog 2 n - 1) < n :=
    Nat.pow_pred_clog_lt_self (by decide) (by omega)
  generalize Nat.clog 2 n = exponent at upper lower seven room ⊢
  unfold ReservableLength at reservable
  interval_cases exponent <;>
    simp [toCapacity] at upper lower room ⊢ <;>
    omega

/-- Every capacity of the shipped build is at least the four inline slots. -/
private theorem four_le_vecCapacity
    {decl : Decl}
    {vector : Vec}
    (powFactor : decl.build = .powFactor) :
    4 ≤ vecCapacity decl vector := by
  unfold vecCapacity
  split
  · rw [powFactor]
    exact @toCapacity_mono 0 vector.capacity (Nat.zero_le _)
  · simp [Decl.slots, powFactor, stackSize]

/-- `vec_reserve` keeps the bounds and provides the room exactly when it is safe. -/
private theorem reserve_sound_iff
    {decl : Decl}
    {before : Vec}
    {n : Nat}
    {allocation : Allocation}
    (powFactor : decl.build = .powFactor)
    (word : n < 2 ^ 64)
    (bounds : InBounds decl before) :
    InBounds decl (vecReserve decl before n allocation) ∧
        n ≤ vecCapacity decl (vecReserve decl before n allocation) ↔
      Safe decl before (.reserve n allocation) := by
  by_cases grows : vecCapacity decl before < n
  · have large : 4 < n := by
      have four := @four_le_vecCapacity decl before powFactor
      omega
    have exponentShape : ilog2 n = Nat.clog 2 n := ilog2_eq_clog (by omega) word
    have onHeap : (vecReserve decl before n allocation).onHeap = true := by
      cases heap : before.onHeap <;>
        simp [vecReserve, grows, heap, reallocate, moveToHeap]
    have size : (vecReserve decl before n allocation).size = before.size := by
      cases heap : before.onHeap <;>
        simp [vecReserve, grows, heap, reallocate, moveToHeap]
    have capacity :
        (vecReserve decl before n allocation).capacity = Nat.clog 2 n % 2 ^ 6 := by
      cases heap : before.onHeap <;>
        simp [vecReserve, grows, heap, reallocate, moveToHeap, exponentShape]
    have allocated :
        (vecReserve decl before n allocation).allocated =
          decl.element.size * 2 ^ (Nat.clog 2 n % 2 ^ 6) % 2 ^ 64 := by
      cases heap : before.onHeap <;>
        simp [vecReserve, grows, heap, reallocate, moveToHeap, exponentShape]
    have readBack :
        vecCapacity decl (vecReserve decl before n allocation) =
          toCapacity .powFactor (Nat.clog 2 n % 2 ^ 6) := by
      simp only [vecCapacity, onHeap, capacity, powFactor, ↓reduceIte]
    rw [heap_inBounds_iff onHeap, readBack, size, capacity, allocated, powFactor]
    simp only [Safe, Nat.not_le.mpr grows, false_or, exponentShape]
    have sizeBound := bounds.sizeBound
    have exponentBound : Nat.clog 2 n ≤ 64 :=
      Nat.clog_le_of_le_pow (Nat.le_of_lt word)
    by_cases wraps : Nat.clog 2 n = 64
    · -- The exponent 64 does not fit its field; the stored zero stands for four elements.
      have zero : toCapacity .powFactor (Nat.clog 2 n % 2 ^ 6) = 4 := by
        rw [wraps]
        decide
      apply iff_of_false
      · rintro ⟨_, enough⟩
        omega
      · rintro ⟨reservable, _⟩
        have seven := clog_of_reservable reservable
        omega
    · have field : Nat.clog 2 n % 2 ^ 6 = Nat.clog 2 n :=
        Nat.mod_eq_of_lt (by omega)
      rw [field]
      constructor
      · rintro ⟨⟨_, room⟩, enough⟩
        have positive := decl.element.sizePositive
        have withinPower :
            toCapacity .powFactor (Nat.clog 2 n) ≤ 2 ^ Nat.clog 2 n := by
          apply Nat.le_of_mul_le_mul_right _ positive
          rw [Nat.mul_comm (2 ^ Nat.clog 2 n)]
          exact Nat.le_trans room (Nat.mod_le _ _)
        have reservable := (reservableLength_iff large).mp ⟨enough, withinPower⟩
        exact ⟨reservable, bytes_of_room large reservable room⟩
      · rintro ⟨reservable, fits⟩
        obtain ⟨enough, withinPower⟩ := (reservableLength_iff large).mpr reservable
        refine ⟨⟨by omega, ?_⟩, enough⟩
        rw [Nat.mod_eq_of_lt fits, Nat.mul_comm]
        exact Nat.mul_le_mul_left _ withinPower
  · have unchanged : vecReserve decl before n allocation = before := by
      simp [vecReserve, grows]
    rw [unchanged]
    simp only [Safe, Nat.le_of_not_lt grows, true_or, iff_true, and_true]
    exact bounds

/-- Every call of the shipped build is sound exactly when it is safe. -/
theorem step_sound_iff
    {decl : Decl}
    {before after : Vec}
    {op : Op}
    (powFactor : decl.build = .powFactor)
    (field : before.capacity < 2 ^ 6)
    (bounds : InBounds decl before)
    (step : Step decl before op after) :
    Sound decl op after ↔ Safe decl before op := by
  obtain ⟨sized, performed⟩ := step
  cases op with
  | pushBack element allocation =>
      simp only [perform, Option.some.injEq] at performed
      subst after
      simp only [Sound, reduceCtorEq, false_implies, implies_true, and_true]
      exact @addElement_inBounds_iff _ _ _ allocation powFactor field bounds
        (by simp [vecPushBack]) (by simp [vecPushBack]) (by simp [vecPushBack])
        (by simp [vecPushBack])
  | insert index element allocation =>
      by_cases valid : index < before.size
      · simp only [perform, vecInsert, valid, ↓reduceIte, Option.some.injEq] at performed
        subst after
        simp only [Sound, reduceCtorEq, false_implies, implies_true, and_true]
        exact @addElement_inBounds_iff _ _ _ allocation powFactor field bounds
          (by simp) (by simp) (by simp) (by simp)
      · simp [perform, vecInsert, valid] at performed
  | erase index =>
      by_cases valid : index < before.size
      · simp only [perform, vecErase, valid, ↓reduceIte, Option.some.injEq] at performed
        subst after
        simp only [Sound, Safe, reduceCtorEq, false_implies, implies_true, and_true, iff_true]
        exact bounds.congr (by simp) (by simp) (by simp) (by simp)
      · simp [perform, vecErase, valid] at performed
  | popBack =>
      simp only [perform, Option.some.injEq] at performed
      subst after
      simp only [Sound, Safe, reduceCtorEq, false_implies, implies_true, and_true, iff_true]
      exact bounds.congr rfl rfl rfl (Nat.sub_le _ _)
  | reserve n allocation =>
      simp only [perform, Option.some.injEq] at performed
      subst after
      rw [← @reserve_sound_iff decl before n allocation powFactor sized bounds]
      simp only [Sound, Op.reserve.injEq]
      constructor
      · rintro ⟨kept, enough⟩
        exact ⟨kept, enough n allocation ⟨rfl, rfl⟩⟩
      · rintro ⟨kept, enough⟩
        refine ⟨kept, ?_⟩
        rintro other _ ⟨rfl, _⟩
        exact enough

/-! ## Whole runs -/

/-- The exponent field keeps its six bits, whatever is called. -/
theorem step_capacity_field
    {decl : Decl}
    {before after : Vec}
    {op : Op}
    (field : before.capacity < 2 ^ 6)
    (step : Step decl before op after) :
    after.capacity < 2 ^ 6 := by
  have grown (allocation : Allocation) :
      (growIfFull decl before allocation).capacity < 2 ^ 6 := by
    unfold growIfFull
    split
    · split
      · exact Nat.mod_lt _ (by decide)
      · exact Nat.mod_lt _ (by decide)
    · exact field
  obtain ⟨_, performed⟩ := step
  cases op with
  | pushBack element allocation =>
      simp only [perform, Option.some.injEq] at performed
      subst after
      simpa [vecPushBack] using grown allocation
  | insert index element allocation =>
      by_cases valid : index < before.size
      · simp only [perform, vecInsert, valid, ↓reduceIte, Option.some.injEq] at performed
        subst after
        simpa using grown allocation
      · simp [perform, vecInsert, valid] at performed
  | erase index =>
      by_cases valid : index < before.size
      · simp only [perform, vecErase, valid, ↓reduceIte, Option.some.injEq] at performed
        subst after
        simpa using field
      · simp [perform, vecErase, valid] at performed
  | popBack =>
      simp only [perform, Option.some.injEq] at performed
      subst after
      exact field
  | reserve n allocation =>
      simp only [perform, Option.some.injEq] at performed
      subst after
      unfold vecReserve
      split
      · split
        · exact Nat.mod_lt _ (by decide)
        · exact Nat.mod_lt _ (by decide)
      · exact field

/-- The invariant of safe runs: the exponent fits its field and the bounds hold. -/
structure Consistent (decl : Decl) (vector : Vec) : Prop where
  field : vector.capacity < 2 ^ 6
  bounds : InBounds decl vector

/-- A vector is in bounds right after its declaration. -/
theorem declare_inBounds
    (decl : Decl)
    (surroundings heap : ByteMemory.Memory) :
    InBounds decl (declare decl surroundings heap) where
  sizeBound := decl.initialFits
  capacityBound := Nat.le_refl _

/--
In the shipped build, every call of a run leaves size, capacity and allocation
consistent and gives `vec_reserve` its room exactly when every call of the run is
safe.
-/
theorem bookkeeping_sound_iff_safe
    (decl : Decl)
    (powFactor : decl.build = .powFactor)
    (surroundings heap : ByteMemory.Memory)
    (ops : List Op) :
    (InBounds decl (declare decl surroundings heap) ∧
      StepsSatisfy (Step decl) (declare decl surroundings heap) ops
        (fun _ op after => Sound decl op after)) ↔
      StepsSatisfy (Step decl) (declare decl surroundings heap) ops
        (fun before op _ => Safe decl before op) := by
  have initially : Consistent decl (declare decl surroundings heap) :=
    ⟨Nat.mod_lt _ (by decide), declare_inBounds decl surroundings heap⟩
  constructor
  · rintro ⟨_, sound⟩
    refine sound.mono initially ?_ ?_
    · intro before op after kept step stepSound
      exact ⟨step_capacity_field kept.field step, stepSound.1⟩
    · intro before op after kept step stepSound
      exact (step_sound_iff powFactor kept.field kept.bounds step).mp stepSound
  · intro safe
    refine ⟨initially.bounds, ?_⟩
    refine safe.mono initially ?_ ?_
    · intro before op after kept step stepSafe
      have stepSound :=
        (step_sound_iff powFactor kept.field kept.bounds step).mpr stepSafe
      exact ⟨step_capacity_field kept.field step, stepSound.1⟩
    · intro before op after kept step stepSafe
      exact (step_sound_iff powFactor kept.field kept.bounds step).mpr stepSafe

/-- The element type `int`. -/
def intType : ElementType where
  size := 4
  alignment := 4
  sizePositive := by decide
  alignmentPower := ⟨2, rfl⟩
  alignmentDivides := Nat.dvd_refl 4

/-- The declaration `v(int, 2, vec)` of the shipped build. -/
def shippedInts : Decl where
  build := .powFactor
  element := intType
  declared := 2
  initial := []
  declaredPositive := by decide
  initialSized := by simp
  initialFits := by decide

/-- An allocator answer with zeroed contents. -/
def zeroAllocation : Allocation where
  address := 4096
  contents := fun _ => 0
  addressable := by decide

/-- The equivalence applies to the declaration `v(int, 2, vec)`. -/
theorem bookkeeping_sound_shippedInts :
    shippedInts.build = .powFactor ∧
      ((InBounds shippedInts (declare shippedInts (fun _ => 0) (fun _ => 0)) ∧
        StepsSatisfy (Step shippedInts) (declare shippedInts (fun _ => 0) (fun _ => 0))
          [.reserve 20 zeroAllocation]
          (fun _ op after => Sound shippedInts op after)) ↔
        StepsSatisfy (Step shippedInts) (declare shippedInts (fun _ => 0) (fun _ => 0))
          [.reserve 20 zeroAllocation]
          (fun before op _ => Safe shippedInts before op)) :=
  ⟨rfl, bookkeeping_sound_iff_safe shippedInts rfl (fun _ => 0) (fun _ => 0)
    [.reserve 20 zeroAllocation]⟩

/--
`vec_reserve(vec, 100)` leaves a capacity of 72, and `vec_reserve(vec, 5)` leaves a
capacity of 16 over a block for 8 elements.
-/
theorem reserve_breaks_bookkeeping :
    (∃ final,
      Run (Step shippedInts) (declare shippedInts (fun _ => 0) (fun _ => 0))
          [.reserve 100 zeroAllocation] final ∧
        ¬ 100 ≤ vecCapacity shippedInts final) ∧
      ∃ final,
        Run (Step shippedInts) (declare shippedInts (fun _ => 0) (fun _ => 0))
            [.reserve 5 zeroAllocation] final ∧
          ¬ vecCapacity shippedInts final ≤ allocatedElements shippedInts final := by
  constructor
  · exact ⟨_, Run.extend .stop ⟨show 100 < 2 ^ 64 by decide, rfl⟩, by decide⟩
  · exact ⟨_, Run.extend .stop ⟨show 5 < 2 ^ 64 by decide, rfl⟩, by decide⟩

end Sysprog.Xvec
