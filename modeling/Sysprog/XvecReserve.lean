import Sysprog.XvecRefinement

namespace Sysprog.Xvec

/-!
# The limits of `vec_reserve` in the plain build

Without `POW_FACTOR` the capacity is read back as `(size_t)(1 << n)`, with a shift of
`int`, and `__vec_reserve` allocates `elemsize * (size_t) 1 << n` bytes, with a shift of
`size_t`.  The two agree up to the exponent 30, and a push onto a full vector goes one
exponent up.
-/

/-- The vectors differ in their elements alone: the buffer is the same one. -/
structure SameBuffer (vector other : Vec) : Prop where
  onHeap : other.onHeap = vector.onHeap
  capacity : other.capacity = vector.capacity
  allocated : other.allocated = vector.allocated

/--
What `vec_reserve(v, n)` is for: the capacity is what is allocated and at least `n`, and a
push that later finds this buffer full doubles both.
-/
structure Reserved (decl : Decl) (after : Vec) (n : Nat) : Prop where
  exact : vecCapacity decl after = allocatedElements decl after
  enough : n ≤ vecCapacity decl after
  doubles :
    ∀ full element allocation,
      SameBuffer after full →
      full.size < 2 ^ 54 →
      full.size = vecCapacity decl full →
      vecCapacity decl (vecPushBack decl full element allocation) =
          2 * vecCapacity decl full ∧
        allocatedElements decl (vecPushBack decl full element allocation) =
          2 * allocatedElements decl full

/-- The capacity is small enough to be doubled, in elements and in bytes. -/
def Doublable (decl : Decl) (capacity : Nat) : Prop :=
  capacity ≤ 2 ^ 29 ∧ decl.element.size * (2 * capacity) < 2 ^ 64

/--
A reservation the code gets right: the capacity is there, agrees with what is allocated,
and can be doubled if a size can reach it at all; or the next power of two can be doubled.
-/
def Reservable (decl : Decl) (before : Vec) (n : Nat) : Prop :=
  if n ≤ vecCapacity decl before then
    vecCapacity decl before = allocatedElements decl before ∧
      (2 ^ 54 ≤ vecCapacity decl before ∨ Doublable decl (vecCapacity decl before))
  else
    Doublable decl (2 ^ Nat.clog 2 n)

variable {decl : Decl} {vector other : Vec}

/-! ## Same buffers -/

theorem SameBuffer.capacity_eq (same : SameBuffer vector other) :
    vecCapacity decl other = vecCapacity decl vector := by
  simp only [vecCapacity, same.onHeap, same.capacity]

theorem SameBuffer.allocated_eq (same : SameBuffer vector other) :
    allocatedElements decl other = allocatedElements decl vector := by
  simp only [allocatedElements, same.onHeap, same.allocated]

/-- Every buffer can be full. -/
theorem SameBuffer.filled (decl : Decl) (vector : Vec) :
    ∃ full, SameBuffer vector full ∧ full.size = vecCapacity decl full :=
  ⟨{ vector with size := vecCapacity decl vector }, ⟨rfl, rfl, rfl⟩, rfl⟩

/-- A capacity of the plain build is never zero. -/
theorem vecCapacity_pos (vector : Vec) (plain : decl.build = .plain) :
    0 < vecCapacity decl vector := by
  rw [vecCapacity]
  split
  · rw [plain, toCapacity, shiftOne]
    split
    · decide
    · exact Nat.two_pow_pos _
  · obtain ⟨exponent, power⟩ := stackSize_power decl.declaredPositive
    rw [Decl.slots, plain, power]
    exact Nat.two_pow_pos exponent

/-! ## Growing a full vector -/

/-- The exponent that a push onto a full vector stores. -/
def pushedExponent (decl : Decl) (vector : Vec) : Nat :=
  if vector.onHeap then
    (vector.capacity + 1) % 2 ^ 6
  else
    expandCapacity decl.build decl.slots % 2 ^ 6

/-- The bookkeeping after a push onto a full vector. -/
theorem pushBack_full
    (plain : decl.build = .plain)
    (full : vector.size = vecCapacity decl vector)
    (element : List UInt8)
    (allocation : Allocation) :
    vecCapacity decl (vecPushBack decl vector element allocation) =
        shiftOne (pushedExponent decl vector) ∧
      allocatedElements decl (vecPushBack decl vector element allocation) =
        decl.element.size * shiftOne (pushedExponent decl vector) % 2 ^ 64 /
          decl.element.size := by
  cases onHeap : vector.onHeap <;>
    simp [vecPushBack, growIfFull, full, onHeap, vecCapacity, allocatedElements, reallocate,
      moveToHeap, pushedExponent, plain, toCapacity]

/-- The bytes for a number of elements hold them exactly if the byte count does not wrap. -/
theorem wrapped_elements {width count : Nat} (positive : 0 < width) :
    width * count % 2 ^ 64 / width = count ↔ width * count < 2 ^ 64 := by
  constructor
  · intro whole
    by_contra wraps
    have reduced : width * count % 2 ^ 64 < width * count :=
      Nat.lt_of_lt_of_le (Nat.mod_lt _ (by decide)) (Nat.not_lt.mp wraps)
    have fewer := Nat.div_lt_of_lt_mul reduced
    omega
  · intro fits
    rw [Nat.mod_eq_of_lt fits, Nat.mul_div_cancel_left _ positive]

/-- Of the exponents in the field, those up to 29 are doubled by the next one. -/
theorem shiftOne_next :
    ∀ exponent,
      exponent < 2 ^ 6 →
      shiftOne exponent < 2 ^ 54 →
      (shiftOne ((exponent + 1) % 2 ^ 6) = 2 * shiftOne exponent ↔
        shiftOne exponent ≤ 2 ^ 29) := by
  decide +kernel

/-- Of the inline buffers, those of up to `2 ^ 29` slots are doubled. -/
theorem shiftOne_first :
    ∀ exponent,
      exponent < 54 →
      (shiftOne ((ilog2 (2 ^ exponent) + 1) % 2 ^ 6) = 2 * 2 ^ exponent ↔
        2 ^ exponent ≤ 2 ^ 29) := by
  decide +kernel

/-- The exponent that is stored next stands for twice the capacity up to `2 ^ 29`. -/
theorem pushed_doubles_iff
    (plain : decl.build = .plain)
    (field : vector.capacity < 2 ^ 6)
    (reachable : vecCapacity decl vector < 2 ^ 54) :
    shiftOne (pushedExponent decl vector) = 2 * vecCapacity decl vector ↔
      vecCapacity decl vector ≤ 2 ^ 29 := by
  cases onHeap : vector.onHeap with
  | true =>
      simp only [vecCapacity, onHeap, if_true, plain, toCapacity] at reachable
      simp only [vecCapacity, pushedExponent, onHeap, if_true, plain, toCapacity]
      exact shiftOne_next vector.capacity field reachable
  | false =>
      obtain ⟨exponent, power⟩ := stackSize_power decl.declaredPositive
      have slots : decl.slots = 2 ^ exponent := by
        rw [Decl.slots, plain, power]
      simp only [vecCapacity, onHeap, Bool.false_eq_true, if_false, slots] at reachable
      simp only [vecCapacity, pushedExponent, onHeap, Bool.false_eq_true, if_false, slots, plain,
        expandCapacity]
      exact shiftOne_first exponent ((Nat.pow_lt_pow_iff_right (by decide)).mp reachable)

/-- A push that finds the buffer full doubles both numbers exactly where there is room for it. -/
theorem pushBack_doubles_iff
    {full : Vec}
    (plain : decl.build = .plain)
    (field : vector.capacity < 2 ^ 6)
    (exact : vecCapacity decl vector = allocatedElements decl vector)
    (same : SameBuffer vector full)
    (small : full.size < 2 ^ 54)
    (filled : full.size = vecCapacity decl full)
    (element : List UInt8)
    (allocation : Allocation) :
    (vecCapacity decl (vecPushBack decl full element allocation) =
          2 * vecCapacity decl full ∧
        allocatedElements decl (vecPushBack decl full element allocation) =
          2 * allocatedElements decl full) ↔
      Doublable decl (vecCapacity decl vector) := by
  obtain ⟨capacity, allocated⟩ := pushBack_full plain filled element allocation
  have equal : vecCapacity decl full = vecCapacity decl vector := same.capacity_eq
  have next := pushed_doubles_iff plain (same.capacity ▸ field) (filled ▸ small)
  rw [equal] at next
  rw [capacity, allocated, equal, same.allocated_eq, ← exact, next, Doublable]
  refine and_congr_right fun within => ?_
  rw [next.mpr within, wrapped_elements decl.element.sizePositive]

/-- What a reserved buffer is, said of the buffer alone. -/
theorem reserved_iff
    {n : Nat}
    (plain : decl.build = .plain)
    (field : vector.capacity < 2 ^ 6) :
    Reserved decl vector n ↔
      vecCapacity decl vector = allocatedElements decl vector ∧
        n ≤ vecCapacity decl vector ∧
        (2 ^ 54 ≤ vecCapacity decl vector ∨ Doublable decl (vecCapacity decl vector)) := by
  constructor
  · intro reserved
    refine ⟨reserved.exact, reserved.enough, ?_⟩
    by_cases never : 2 ^ 54 ≤ vecCapacity decl vector
    · exact .inl never
    · -- Filled up to its capacity, the vector is one that the doubling speaks about.
      obtain ⟨full, same, filled⟩ := SameBuffer.filled decl vector
      have small : full.size < 2 ^ 54 := by
        rw [filled, same.capacity_eq]
        exact Nat.not_le.mp never
      have doubled := reserved.doubles full [] zeroAllocation same small filled
      exact .inr
        ((pushBack_doubles_iff plain field reserved.exact same small filled _ _).mp doubled)
  · rintro ⟨exact, enough, room⟩
    refine ⟨exact, enough, fun full element allocation same small filled => ?_⟩
    rw [pushBack_doubles_iff plain field exact same small filled]
    rcases room with never | doublable
    · rw [filled, same.capacity_eq] at small
      omega
    · exact doublable

/-! ## Reserving -/

/-- The buffer after a reservation that allocates. -/
theorem vecReserve_grown
    {n : Nat}
    (plain : decl.build = .plain)
    (grows : vecCapacity decl vector < n)
    (fits : n < 2 ^ 54)
    (allocation : Allocation) :
    let after := vecReserve decl vector n allocation
    after.capacity = Nat.clog 2 n ∧
      vecCapacity decl after = shiftOne (Nat.clog 2 n) ∧
      allocatedElements decl after =
        decl.element.size * 2 ^ Nat.clog 2 n % 2 ^ 64 / decl.element.size := by
  have exponent : ilog2 n = Nat.clog 2 n := ilog2_eq_clog (by omega) (by omega)
  have small : Nat.clog 2 n ≤ 54 := Nat.clog_le_of_le_pow (Nat.le_of_lt fits)
  have field : Nat.clog 2 n % 2 ^ 6 = Nat.clog 2 n := Nat.mod_eq_of_lt (by omega)
  simp only [vecReserve, grows, if_true, exponent, field]
  cases onHeap : vector.onHeap <;>
    simp [reallocate, moveToHeap, vecCapacity, allocatedElements, onHeap, plain, toCapacity]

/-- The exponents 31 and above do not read back as the capacity that was allocated. -/
theorem shiftOne_agrees
    {n width : Nat}
    (large : 1 < n)
    (fits : n < 2 ^ 54)
    (exact :
      shiftOne (Nat.clog 2 n) = width * 2 ^ Nat.clog 2 n % 2 ^ 64 / width)
    (enough : n ≤ shiftOne (Nat.clog 2 n)) :
    Nat.clog 2 n ≤ 30 := by
  have small : Nat.clog 2 n ≤ 54 := Nat.clog_le_of_le_pow (Nat.le_of_lt fits)
  have lower : 2 ^ (Nat.clog 2 n - 1) < n := Nat.pow_pred_clog_lt_self (by decide) large
  have quotient :
      width * 2 ^ Nat.clog 2 n % 2 ^ 64 / width ≤ 2 ^ Nat.clog 2 n :=
    calc
      width * 2 ^ Nat.clog 2 n % 2 ^ 64 / width ≤ width * 2 ^ Nat.clog 2 n / width :=
        Nat.div_le_div_right (Nat.mod_le _ _)
      _ ≤ 2 ^ Nat.clog 2 n := by
        rcases Nat.eq_zero_or_pos width with none | positive
        · simp [none]
        · rw [Nat.mul_div_cancel_left _ positive]
  rw [← exact] at quotient
  generalize Nat.clog 2 n = exponent at small lower enough quotient
  by_contra high
  have back : shiftOne exponent < 2 ^ (exponent - 1) ∨ 2 ^ exponent < shiftOne exponent := by
    clear lower enough quotient exact
    interval_cases exponent <;> decide
  omega

/--
In the plain build a reservation of a number that fits the size field does what it is for
exactly where the reservable numbers say.
-/
theorem reserve_doubles_iff
    (plain : decl.build = .plain)
    (field : vector.capacity < 2 ^ 6)
    {n : Nat}
    (fits : n < 2 ^ 54)
    (allocation : Allocation) :
    Reserved decl (vecReserve decl vector n allocation) n ↔ Reservable decl vector n := by
  by_cases there : n ≤ vecCapacity decl vector
  · have unchanged : vecReserve decl vector n allocation = vector :=
      if_neg (Nat.not_lt.mpr there)
    rw [unchanged, reserved_iff plain field, Reservable, if_pos there]
    exact and_congr_right fun _ => and_iff_right there
  · have grows : vecCapacity decl vector < n := Nat.not_le.mp there
    have positive := vecCapacity_pos vector plain
    obtain ⟨exponent, capacity, allocated⟩ := vecReserve_grown plain grows fits allocation
    have small : Nat.clog 2 n ≤ 54 := Nat.clog_le_of_le_pow (Nat.le_of_lt fits)
    rw [reserved_iff plain (by rw [exponent]; omega), capacity, allocated, Reservable,
      if_neg there]
    constructor
    · rintro ⟨exact, enough, room⟩
      have agrees := shiftOne_agrees (by omega) fits exact enough
      rw [shiftOne_small agrees] at room
      rcases room with never | doublable
      · have bounded : 2 ^ Nat.clog 2 n ≤ 2 ^ 30 := Nat.pow_le_pow_right (by decide) agrees
        omega
      · exact doublable
    · intro doublable
      have agrees : Nat.clog 2 n ≤ 29 := (Nat.pow_le_pow_iff_right (by decide)).mp doublable.1
      have bytes : decl.element.size * 2 ^ Nat.clog 2 n < 2 ^ 64 :=
        Nat.lt_of_le_of_lt (Nat.mul_le_mul_left _ (by omega)) doublable.2
      rw [shiftOne_small (by omega)]
      exact ⟨((wrapped_elements decl.element.sizePositive).mpr bytes).symm,
        Nat.le_pow_clog (by decide) n, .inr doublable⟩

theorem reserve_doubles_hundred :
    Reserved plainInts
        (vecReserve plainInts (declare plainInts (fun _ => 0) (fun _ => 0)) 100 zeroAllocation)
        100 ↔
      Reservable plainInts (declare plainInts (fun _ => 0) (fun _ => 0)) 100 :=
  reserve_doubles_iff rfl (by decide) (by decide) zeroAllocation

/-- `vec_reserve(vec, 1073741825)` allocates 2147483648 elements and reads back another capacity. -/
theorem reserve_misread :
    ¬ Reserved plainInts
        (vecReserve plainInts (declare plainInts (fun _ => 0) (fun _ => 0)) (2 ^ 30 + 1)
          zeroAllocation)
        (2 ^ 30 + 1) := by
  intro reserved
  exact absurd reserved.exact (by decide +kernel)

end Sysprog.Xvec
