import Sysprog.XvecCapacity

namespace Sysprog.Xvec

open ByteMemory Execution

/-!
# The vector as a list

In the build without `POW_FACTOR` both capacity rules are powers of two.  The
elements seen through `vec_pos` follow the plain list operations, through the
move to the heap and every reallocation, as long as the declaration and the
functions agree on where the inline buffer starts, and all elements lie where a pointer
to their type may point.
-/

/-- The elements `vec_pos` shows, in order. -/
def elements (decl : Decl) (vector : Vec) : List (Option (List UInt8)) :=
  (List.range vector.size).map (vecPos decl vector)

/-- The list operation a call stands for. -/
def listStep (values : List (List UInt8)) : Op → List (List UInt8)
  | .pushBack element _ => values ++ [element]
  | .insert index element _ => values.insertIdx index element
  | .erase index => values.eraseIdx index
  | .popBack => values.dropLast
  | .reserve _ _ => values

/-- The call asks for a capacity of at most `2 ^ 30` elements. -/
def KeepsCapacity (decl : Decl) (before : Vec) : Op → Prop
  | .reserve n _ => n ≤ vecCapacity decl before ∨ n ≤ 2 ^ 30
  | .pushBack _ _ | .insert _ _ _ =>
      before.size ≠ vecCapacity decl before ∨ 2 * vecCapacity decl before ≤ 2 ^ 30
  | .erase _ => True
  | .popBack => True

/-- The byte count the call passes to the allocator, if it does, fits a `size_t`. -/
def BytesFit (decl : Decl) (before : Vec) : Op → Prop
  | .reserve n _ =>
      n ≤ vecCapacity decl before ∨ decl.element.size * 2 ^ ilog2 n < 2 ^ 64
  | .pushBack _ _ | .insert _ _ _ =>
      before.size ≠ vecCapacity decl before ∨
        decl.element.size * (2 * vecCapacity decl before) < 2 ^ 64
  | .erase _ => True
  | .popBack => True

/-- The inline buffer is aligned for the element type. -/
def InlineAligned (decl : Decl) : Prop :=
  decl.element.alignment ≤ 8

/-- The call stores no element where a pointer to its type may not point. -/
def StoresAligned (decl : Decl) (before : Vec) : Op → Prop
  | .pushBack _ _ => InlineAligned decl ∨ before.onHeap = true
  | .insert _ _ _ => True
  | .erase _ => True
  | .popBack => True
  | .reserve _ _ => True

/-- The block the allocator answers with, if it is asked, is aligned for the element type. -/
def BlockAligned (decl : Decl) (before : Vec) : Op → Prop
  | .reserve n allocation =>
      n ≤ vecCapacity decl before ∨ decl.element.alignment ∣ allocation.address
  | .pushBack _ allocation | .insert _ _ allocation =>
      before.size ≠ vecCapacity decl before ∨ decl.element.alignment ∣ allocation.address
  | .erase _ => True
  | .popBack => True

/-! ## Bookkeeping of the plain build -/

/-- `1 << n` is a power of two up to the exponent 30. -/
theorem shiftOne_small
    {n : Nat}
    (small : n ≤ 30) :
    shiftOne n = 2 ^ n := by
  have reduced : n % 32 = n := Nat.mod_eq_of_lt (by omega)
  unfold shiftOne
  rw [reduced, if_neg (by omega)]

/-- A declared inline buffer has a power of two of slots. -/
theorem stackSize_power
    {s : Nat}
    (positive : 1 ≤ s) :
    ∃ exponent, stackSize .plain s = 2 ^ exponent := by
  simp only [stackSize]
  split
  · rename_i power
    exact (Nat.and_sub_one_eq_zero_iff_isPowerOfTwo (by omega)).mp power
  · exact ⟨64 - clzl s, rfl⟩

/-- What the plain build keeps: a power of two of slots, exactly as many as allocated. -/
structure PlainBounds (decl : Decl) (vector : Vec) : Prop where
  sizeBound : vector.size ≤ vecCapacity decl vector
  heapExponent : vector.onHeap = true → vector.capacity ≤ 30
  heapBytes :
    vector.onHeap = true →
      vector.allocated = decl.element.size * 2 ^ vector.capacity ∧
        decl.element.size * 2 ^ vector.capacity < 2 ^ 64

namespace PlainBounds

variable {decl : Decl} {vector : Vec}

/-- The capacity is a power of two of at most `2 ^ 30` elements. -/
theorem capacity_power
    (bounds : PlainBounds decl vector)
    (plain : decl.build = .plain)
    (small : decl.slots ≤ 2 ^ 30) :
    ∃ exponent, exponent ≤ 30 ∧ vecCapacity decl vector = 2 ^ exponent := by
  unfold vecCapacity
  split
  · rename_i onHeap
    rw [plain]
    exact ⟨vector.capacity, bounds.heapExponent onHeap,
      shiftOne_small (bounds.heapExponent onHeap)⟩
  · obtain ⟨exponent, power⟩ := stackSize_power decl.declaredPositive
    have slotsPower : decl.slots = 2 ^ exponent := by
      rw [Decl.slots, plain, power]
    refine ⟨exponent, ?_, slotsPower⟩
    rw [slotsPower] at small
    exact (Nat.pow_le_pow_iff_right (by decide)).mp small

/-- The capacity is the number of elements allocated. -/
theorem capacity_eq_allocated
    (bounds : PlainBounds decl vector)
    (plain : decl.build = .plain) :
    vecCapacity decl vector = allocatedElements decl vector := by
  unfold vecCapacity allocatedElements
  split
  · rename_i onHeap
    rw [plain, (bounds.heapBytes onHeap).1,
      Nat.mul_div_cancel_left _ decl.element.sizePositive]
    exact shiftOne_small (bounds.heapExponent onHeap)
  · rfl

/-- The bytes of the stored elements lie within the allocation. -/
theorem stored_le_allocated
    (bounds : PlainBounds decl vector)
    (plain : decl.build = .plain)
    (onHeap : vector.onHeap = true) :
    vector.size * decl.element.size ≤ vector.allocated := by
  have sizeBound := bounds.sizeBound
  simp only [vecCapacity, onHeap, ↓reduceIte, plain, toCapacity,
    shiftOne_small (bounds.heapExponent onHeap)] at sizeBound
  rw [(bounds.heapBytes onHeap).1, Nat.mul_comm]
  exact Nat.mul_le_mul_left _ sizeBound

end PlainBounds

/-! ## Memory of a vector -/

namespace Vec

variable {vector : Vec} {replacement : Memory}

@[simp] theorem setMemory_memory :
    (vector.setMemory replacement).memory = replacement := by
  cases onHeap : vector.onHeap <;> simp [setMemory, memory, onHeap]

@[simp] theorem setMemory_base :
    (vector.setMemory replacement).base = vector.base := by
  cases onHeap : vector.onHeap <;> simp [setMemory, base, ptr, onHeap]

/-- Storing elements on the heap keeps the pointer to them. -/
theorem setMemory_ptr (onHeap : vector.onHeap = true) :
    (vector.setMemory replacement).ptr = vector.ptr := by
  simp [setMemory, ptr, onHeap]

end Vec

/-- A pointer stored over the inline bytes reads back. -/
private theorem stored_pointer
    (body : Memory)
    (allocation : Allocation) :
    decode (read (write body 0 (encode 8 allocation.address)) 0 8) =
      allocation.address := by
  rw [read_write_of_length (length_encode 8 _)]
  exact decode_encode_of_lt allocation.addressable

/-- The pointer of a vector whose elements have moved. -/
private theorem moved_ptr
    {decl : Decl}
    {vector : Vec}
    {exponent bytes : Nat}
    (allocation : Allocation) :
    (if vector.onHeap then
        reallocate vector exponent bytes allocation
      else
        moveToHeap decl vector exponent bytes allocation).ptr =
      allocation.address := by
  split <;> exact stored_pointer vector.body allocation

/-- Slots copied into a new block read there as they read before. -/
private theorem slot_copied
    {heap source : Memory}
    {start bytes count width index : Nat}
    {unspecified : List UInt8}
    (allocation : Allocation)
    (covered : count * width ≤ bytes)
    (inside : index < count) :
    slot
        (write (write heap allocation.address unspecified) allocation.address
          (read source start bytes))
        allocation.address width index =
      slot source start width index := by
  refine @slot_congr _ _ _ _ _ count _ ?_ inside
  rw [read_write_take (by simpa using covered)]
  have part := @read_sub source start bytes 0 (count * width) (by omega)
  simpa using part.symm

/-- Reallocating to a block that is no smaller keeps every element. -/
theorem reallocate_elementBytes
    {decl : Decl}
    {vector : Vec}
    {exponent bytes index : Nat}
    {allocation : Allocation}
    (onHeap : vector.onHeap = true)
    (stored : vector.size * decl.element.size ≤ vector.allocated)
    (fits : vector.size * decl.element.size ≤ bytes)
    (inside : index < vector.size) :
    elementBytes decl (reallocate vector exponent bytes allocation) index =
      elementBytes decl vector index := by
  simp only [elementBytes, Vec.memory, Vec.base, reallocate, onHeap, ↓reduceIte, Vec.ptr,
    stored_pointer]
  exact slot_copied allocation (Nat.le_min.mpr ⟨stored, fits⟩) inside

/-- Moving the inline buffer to the heap keeps every element. -/
theorem moveToHeap_elementBytes
    {decl : Decl}
    {vector : Vec}
    {exponent bytes index : Nat}
    {allocation : Allocation}
    (onStack : vector.onHeap = false)
    (fits : vector.size * decl.element.size < 2 ^ 64)
    (inside : index < vector.size) :
    elementBytes decl (moveToHeap decl vector exponent bytes allocation) index =
      elementBytes decl vector index := by
  have count :
      decl.element.size * vector.size % 2 ^ 64 = vector.size * decl.element.size := by
    rw [Nat.mul_comm, Nat.mod_eq_of_lt fits]
  simp only [elementBytes, Vec.memory, Vec.base, moveToHeap, onStack, ↓reduceIte, Vec.ptr,
    stored_pointer, count, Bool.false_eq_true]
  exact slot_copied allocation (Nat.le_refl _) inside

/-! ## Refinement -/

/-- The vector shows exactly `values` and its bookkeeping is exact. -/
structure Represents
    (decl : Decl)
    (vector : Vec)
    (values : List (List UInt8)) : Prop where
  bounds : PlainBounds decl vector
  size : vector.size = values.length
  heapAligned : vector.onHeap = true → decl.element.alignment ∣ vector.ptr
  inlineAligned : vector.onHeap = false → InlineAligned decl ∨ values = []
  shown :
    ∀ index (inside : index < values.length),
      elementBytes decl vector index = values[index]

/-- A vector moved to a heap block of `2 ^ exponent` slots still shows its elements. -/
private theorem relocated_represents
    {decl : Decl}
    {vector moved : Vec}
    {values : List (List UInt8)}
    {exponent : Nat}
    (plain : decl.build = .plain)
    (represents : Represents decl vector values)
    (small : exponent ≤ 30)
    (fits : decl.element.size * 2 ^ exponent < 2 ^ 64)
    (room : values.length ≤ 2 ^ exponent)
    (onHeap : moved.onHeap = true)
    (size : moved.size = vector.size)
    (capacity : moved.capacity = exponent)
    (allocated : moved.allocated = decl.element.size * 2 ^ exponent)
    (aligned : decl.element.alignment ∣ moved.ptr)
    (kept :
      ∀ index, index < vector.size →
        elementBytes decl moved index = elementBytes decl vector index) :
    Represents decl moved values ∧ vecCapacity decl moved = 2 ^ exponent := by
  have capacityValue : vecCapacity decl moved = 2 ^ exponent := by
    simp only [vecCapacity, onHeap, capacity, plain, ↓reduceIte, toCapacity]
    exact shiftOne_small small
  refine ⟨⟨⟨?_, ?_, ?_⟩, ?_, fun _ => aligned, by simp [onHeap], ?_⟩, capacityValue⟩
  · rw [capacityValue, size, represents.size]
    exact room
  · intro _
    rw [capacity]
    exact small
  · intro _
    rw [allocated, capacity]
    exact ⟨rfl, fits⟩
  · rw [size]
    exact represents.size
  · intro index inside
    rw [kept index (by rw [represents.size]; exact inside)]
    exact represents.shown index inside

/-- Both relocations of the source, to `2 ^ exponent` slots. -/
private theorem relocate_represents
    {decl : Decl}
    {vector : Vec}
    {values : List (List UInt8)}
    {exponent : Nat}
    {allocation : Allocation}
    (plain : decl.build = .plain)
    (represents : Represents decl vector values)
    (small : exponent ≤ 30)
    (fits : decl.element.size * 2 ^ exponent < 2 ^ 64)
    (room : values.length ≤ 2 ^ exponent)
    (aligned : decl.element.alignment ∣ allocation.address) :
    let bytes := decl.element.size * 2 ^ exponent
    let moved :=
      if vector.onHeap then
        reallocate vector exponent bytes allocation
      else
        moveToHeap decl vector exponent bytes allocation
    Represents decl moved values ∧ vecCapacity decl moved = 2 ^ exponent := by
  intro bytes moved
  have storedBytes : vector.size * decl.element.size ≤ bytes := by
    rw [represents.size, Nat.mul_comm]
    exact Nat.mul_le_mul_left _ room
  have pointsThere : decl.element.alignment ∣ moved.ptr := by
    rw [show moved.ptr = allocation.address from moved_ptr allocation]
    exact aligned
  cases onHeap : vector.onHeap with
  | true =>
      have movedShape : moved = reallocate vector exponent bytes allocation := by
        simp [moved, onHeap]
      rw [movedShape] at pointsThere ⊢
      refine relocated_represents plain represents small fits room ?_ rfl rfl rfl pointsThere ?_
      · exact onHeap
      intro index inside
      exact reallocate_elementBytes onHeap
        (represents.bounds.stored_le_allocated plain onHeap) storedBytes inside
  | false =>
      have movedShape : moved = moveToHeap decl vector exponent bytes allocation := by
        simp [moved, onHeap]
      rw [movedShape] at pointsThere ⊢
      refine relocated_represents plain represents small fits room rfl ?_ rfl rfl pointsThere ?_
      · rfl
      intro index inside
      exact moveToHeap_elementBytes onHeap (Nat.lt_of_le_of_lt storedBytes fits) inside

/-- The growth code leaves a vector of the same elements with a free slot. -/
theorem growIfFull_represents
    {decl : Decl}
    {vector : Vec}
    {values : List (List UInt8)}
    {allocation : Allocation}
    (plain : decl.build = .plain)
    (small : decl.slots ≤ 2 ^ 30)
    (represents : Represents decl vector values)
    (keeps :
      vector.size ≠ vecCapacity decl vector ∨ 2 * vecCapacity decl vector ≤ 2 ^ 30)
    (fits :
      vector.size ≠ vecCapacity decl vector ∨
        decl.element.size * (2 * vecCapacity decl vector) < 2 ^ 64)
    (aligned :
      vector.size ≠ vecCapacity decl vector ∨
        decl.element.alignment ∣ allocation.address) :
    Represents decl (growIfFull decl vector allocation) values ∧
      values.length < vecCapacity decl (growIfFull decl vector allocation) := by
  by_cases full : vector.size = vecCapacity decl vector
  · obtain ⟨exponent, exponentBound, power⟩ :=
      represents.bounds.capacity_power plain small
    have doubled : 2 * vecCapacity decl vector = 2 ^ (exponent + 1) := by
      rw [power, Nat.pow_succ, Nat.mul_comm]
    have nextBound : exponent + 1 ≤ 30 := by
      have total := keeps.resolve_left (fun different => different full)
      rw [doubled] at total
      exact (Nat.pow_le_pow_iff_right (by decide)).mp total
    have nextFits : decl.element.size * 2 ^ (exponent + 1) < 2 ^ 64 := by
      have bytes := fits.resolve_left (fun different => different full)
      rwa [doubled] at bytes
    have filled : values.length = 2 ^ exponent := by
      rw [← represents.size, full, power]
    have room : values.length < 2 ^ (exponent + 1) := by
      rw [filled]
      exact Nat.pow_lt_pow_right (by decide) (Nat.lt_succ_self exponent)
    -- Both branches of the growth code store the next exponent.
    have shape :
        growIfFull decl vector allocation =
          if vector.onHeap then
            reallocate vector (exponent + 1)
              (decl.element.size * 2 ^ (exponent + 1)) allocation
          else
            moveToHeap decl vector (exponent + 1)
              (decl.element.size * 2 ^ (exponent + 1)) allocation := by
      have field : (exponent + 1) % 2 ^ 6 = exponent + 1 := Nat.mod_eq_of_lt (by omega)
      cases onHeap : vector.onHeap with
      | true =>
          have stored : vector.capacity = exponent := by
            have heapPower := power
            simp only [vecCapacity, onHeap, ↓reduceIte, plain, toCapacity,
              shiftOne_small (represents.bounds.heapExponent onHeap)] at heapPower
            exact Nat.pow_right_injective (Nat.le_refl 2) heapPower
          simp only [growIfFull, full, onHeap, ↓reduceIte, stored, field, plain,
            toCapacity, shiftOne_small nextBound, Nat.mod_eq_of_lt nextFits]
      | false =>
          have expanded : expandCapacity .plain (2 ^ exponent) = exponent + 1 := by
            have word : 2 ^ exponent < 2 ^ 64 :=
              Nat.pow_lt_pow_right (by decide) (by omega)
            rw [expandCapacity, ilog2_eq_clog (Nat.two_pow_pos exponent) word,
              Nat.clog_pow 2 exponent (by decide)]
          simp only [growIfFull, full, onHeap, ↓reduceIte, power, expanded, field, plain,
            toCapacity, shiftOne_small nextBound, Nat.mod_eq_of_lt nextFits,
            Bool.false_eq_true]
    obtain ⟨movedRepresents, movedCapacity⟩ :=
      relocate_represents plain represents nextBound nextFits (Nat.le_of_lt room)
        (aligned.resolve_left fun different => different full)
    rw [shape]
    exact ⟨movedRepresents, by rw [movedCapacity]; exact room⟩
  · have unchanged : growIfFull decl vector allocation = vector := by
      simp [growIfFull, full]
    rw [unchanged]
    refine ⟨represents, ?_⟩
    rw [← represents.size]
    exact Nat.lt_of_le_of_ne represents.bounds.sizeBound full

/-- A vector whose bookkeeping is unchanged but for a size within the capacity. -/
private theorem PlainBounds.resize
    {decl : Decl}
    {vector other : Vec}
    (bounds : PlainBounds decl vector)
    (onHeap : other.onHeap = vector.onHeap)
    (capacity : other.capacity = vector.capacity)
    (allocated : other.allocated = vector.allocated)
    (within : other.size ≤ vecCapacity decl vector) :
    PlainBounds decl other where
  sizeBound := by
    simpa only [vecCapacity, onHeap, capacity] using within
  heapExponent := by
    rw [onHeap, capacity]
    exact bounds.heapExponent
  heapBytes := by
    rw [onHeap, capacity, allocated]
    exact bounds.heapBytes

/-- The size field counts one more element of a vector with a free slot. -/
private theorem incremented_size
    {decl : Decl}
    {vector : Vec}
    {values : List (List UInt8)}
    (plain : decl.build = .plain)
    (small : decl.slots ≤ 2 ^ 30)
    (represents : Represents decl vector values)
    (free : values.length < vecCapacity decl vector) :
    (vector.size + 1) % 2 ^ 54 = values.length + 1 := by
  obtain ⟨exponent, exponentBound, power⟩ :=
    represents.bounds.capacity_power plain small
  have bounded : 2 ^ exponent ≤ 2 ^ 30 :=
    Nat.pow_le_pow_right (by decide) exponentBound
  rw [represents.size]
  apply Nat.mod_eq_of_lt
  omega

/--
Editing the memory that holds the elements, and the size: the result shows the new
values when the edited memory holds them slot by slot.  An inline buffer that is not
aligned for the elements stays without any.
-/
private theorem edited_represents
    {decl : Decl}
    {vector : Vec}
    {values edited : List (List UInt8)}
    {replacement : Memory}
    {size : Nat}
    (represents : Represents decl vector values)
    (newSize : size = edited.length)
    (room : edited.length ≤ vecCapacity decl vector)
    (inline : vector.onHeap = false → InlineAligned decl ∨ edited = [])
    (shown :
      ∀ index (inside : index < edited.length),
        slot replacement vector.base decl.element.size index = edited[index]) :
    Represents decl { vector.setMemory replacement with size := size } edited where
  bounds := by
    refine represents.bounds.resize (by simp) (by simp) (by simp) ?_
    rw [newSize]
    exact room
  size := newSize
  heapAligned := by
    simp only [Vec.setMemory_onHeap]
    intro onHeap
    show decl.element.alignment ∣ (vector.setMemory replacement).ptr
    rw [Vec.setMemory_ptr onHeap]
    exact represents.heapAligned onHeap
  inlineAligned := by
    simpa only [Vec.setMemory_onHeap] using inline
  shown := by
    intro index inside
    show slot (vector.setMemory replacement).memory (vector.setMemory replacement).base
      decl.element.size index = edited[index]
    rw [Vec.setMemory_memory, Vec.setMemory_base]
    exact shown index inside

/-- Slots of the represented memory, in terms of the elements. -/
private theorem Represents.slot_eq
    {decl : Decl}
    {vector : Vec}
    {values : List (List UInt8)}
    (represents : Represents decl vector values)
    {index : Nat}
    (inside : index < values.length) :
    slot vector.memory vector.base decl.element.size index = values[index] :=
  represents.shown index inside

/-- Storing behind the last element of a vector with a free slot appends. -/
private theorem append_represents
    {decl : Decl}
    {vector : Vec}
    {values : List (List UInt8)}
    {element : List UInt8}
    (plain : decl.build = .plain)
    (small : decl.slots ≤ 2 ^ 30)
    (represents : Represents decl vector values)
    (sized : element.length = decl.element.size)
    (free : values.length < vecCapacity decl vector)
    (aligned : InlineAligned decl ∨ vector.onHeap = true) :
    Represents decl
      { vector.setMemory
          (write vector.memory (vector.base + vector.size * decl.element.size) element) with
        size := (vector.size + 1) % 2 ^ 54 }
      (values ++ [element]) := by
  have newSize := incremented_size plain small represents free
  have inline : vector.onHeap = false → InlineAligned decl := by
    intro onStack
    exact aligned.resolve_right (by simp [onStack])
  refine edited_represents represents (by simpa using newSize)
    (by simpa using Nat.succ_le_of_lt free) (fun onStack => .inl (inline onStack)) ?_
  intro index inside
  rw [represents.size]
  by_cases last : index = values.length
  · subst index
    rw [slot_write_same sized]
    simp
  · have earlier : index < values.length := by
      simp only [List.length_append, List.length_cons, List.length_nil] at inside
      omega
    rw [slot_write_other sized last, List.getElem_append_left earlier]
    exact represents.slot_eq earlier

/-- An inline buffer that holds an element is aligned for it. -/
private theorem Represents.inline_of_occupied
    {decl : Decl}
    {vector : Vec}
    {values : List (List UInt8)}
    (represents : Represents decl vector values)
    (occupied : 0 < values.length)
    (onStack : vector.onHeap = false) :
    InlineAligned decl := by
  refine (represents.inlineAligned onStack).resolve_right ?_
  rintro rfl
  exact absurd occupied (Nat.lt_irrefl 0)

/-- Shifting the later elements up and storing into the gap inserts. -/
private theorem insert_represents
    {decl : Decl}
    {vector : Vec}
    {values : List (List UInt8)}
    {element : List UInt8}
    {position : Nat}
    (plain : decl.build = .plain)
    (small : decl.slots ≤ 2 ^ 30)
    (represents : Represents decl vector values)
    (sized : element.length = decl.element.size)
    (free : values.length < vecCapacity decl vector)
    (valid : position < values.length) :
    Represents decl
      { vector.setMemory
          (write
            (move vector.memory (vector.base + (position + 1) * decl.element.size)
              (vector.base + position * decl.element.size)
              ((vector.size - position) * decl.element.size))
            (vector.base + position * decl.element.size) element) with
        size := (vector.size + 1) % 2 ^ 54 }
      (values.insertIdx position element) := by
  have newSize := incremented_size plain small represents free
  have newLength : (values.insertIdx position element).length = values.length + 1 :=
    List.length_insertIdx_of_le_length (Nat.le_of_lt valid) element
  refine edited_represents represents (by rw [newLength]; exact newSize)
    (by rw [newLength]; exact free)
    (fun onStack => .inl (represents.inline_of_occupied (by omega) onStack)) ?_
  intro index inside
  rw [newLength] at inside
  rw [represents.size]
  rcases Nat.lt_trichotomy index position with before | same | behind
  · rw [slot_write_other sized (Nat.ne_of_lt before),
      slot_move_outside (Or.inl (by omega)), List.getElem_insertIdx_of_lt before]
    exact represents.slot_eq (by omega)
  · subst index
    rw [slot_write_same sized]
    simp
  · obtain ⟨offset, rfl⟩ : ∃ offset, index = position + 1 + offset :=
      Nat.exists_eq_add_of_le behind
    rw [slot_write_other sized (by omega), slot_move_inside (by omega),
      List.getElem_insertIdx_of_gt (by omega)]
    rw [represents.slot_eq (by omega)]
    congr 1
    omega

/-- Shifting the later elements down over one slot erases it. -/
private theorem erase_represents
    {decl : Decl}
    {vector : Vec}
    {values : List (List UInt8)}
    {position : Nat}
    (represents : Represents decl vector values)
    (valid : position < values.length) :
    Represents decl
      { vector.setMemory
          (move vector.memory (vector.base + position * decl.element.size)
            (vector.base + (position + 1) * decl.element.size)
            ((vector.size - position) * decl.element.size)) with
        size := vector.size - 1 }
      (values.eraseIdx position) := by
  have newLength : (values.eraseIdx position).length = values.length - 1 :=
    List.length_eraseIdx_of_lt valid
  have sizeBound := represents.bounds.sizeBound
  rw [represents.size] at sizeBound
  refine edited_represents represents (by rw [newLength, represents.size])
    (by rw [newLength]; omega)
    (fun onStack => .inl (represents.inline_of_occupied (by omega) onStack)) ?_
  intro index inside
  rw [newLength] at inside
  rw [represents.size]
  by_cases before : index < position
  · rw [slot_move_outside (Or.inl before), List.getElem_eraseIdx_of_lt _ before]
    exact represents.slot_eq (by omega)
  · obtain ⟨offset, rfl⟩ := Nat.exists_eq_add_of_le (Nat.le_of_not_lt before)
    -- The slot behind the last element also moves, but into a place no longer shown.
    rw [slot_move_inside (by omega), List.getElem_eraseIdx_of_ge _ (by omega)]
    rw [represents.slot_eq (by omega)]
    congr 1
    omega

/-- Dropping the last element only changes the size. -/
private theorem popBack_represents
    {decl : Decl}
    {vector : Vec}
    {values : List (List UInt8)}
    (represents : Represents decl vector values) :
    Represents decl (vecPopBack vector) values.dropLast := by
  have newSize : (vecPopBack vector).size = values.dropLast.length := by
    simp only [vecPopBack, represents.size, List.length_dropLast]
    split <;> omega
  have sizeBound := represents.bounds.sizeBound
  have inline : vector.onHeap = false → InlineAligned decl ∨ values.dropLast = [] := by
    intro onStack
    refine (represents.inlineAligned onStack).imp_right ?_
    rintro rfl
    rfl
  refine ⟨represents.bounds.resize rfl rfl rfl ?_, newSize, represents.heapAligned, inline, ?_⟩
  · rw [newSize, List.length_dropLast]
    rw [represents.size] at sizeBound
    omega
  · intro index inside
    rw [List.length_dropLast] at inside
    rw [List.getElem_dropLast]
    exact represents.slot_eq (by omega)

/-- `vec_reserve` shows the same elements. -/
private theorem reserve_represents
    {decl : Decl}
    {vector : Vec}
    {values : List (List UInt8)}
    {n : Nat}
    {allocation : Allocation}
    (plain : decl.build = .plain)
    (represents : Represents decl vector values)
    (keeps : n ≤ vecCapacity decl vector ∨ n ≤ 2 ^ 30)
    (fits :
      n ≤ vecCapacity decl vector ∨ decl.element.size * 2 ^ ilog2 n < 2 ^ 64)
    (aligned : n ≤ vecCapacity decl vector ∨ decl.element.alignment ∣ allocation.address) :
    Represents decl (vecReserve decl vector n allocation) values := by
  by_cases grows : vecCapacity decl vector < n
  · have sizeBound := represents.bounds.sizeBound
    have bounded : n ≤ 2 ^ 30 := keeps.resolve_left (by omega)
    have bytes := fits.resolve_left (by omega)
    have word : n < 2 ^ 64 := by omega
    have exponentShape : ilog2 n = Nat.clog 2 n := ilog2_eq_clog (by omega) word
    have small : ilog2 n ≤ 30 := by
      rw [exponentShape]
      exact Nat.clog_le_of_le_pow bounded
    have enough : n ≤ 2 ^ ilog2 n := by
      rw [exponentShape]
      exact Nat.le_pow_clog (by decide) n
    have field : ilog2 n % 2 ^ 6 = ilog2 n := Nat.mod_eq_of_lt (by omega)
    have shape :
        vecReserve decl vector n allocation =
          if vector.onHeap then
            reallocate vector (ilog2 n) (decl.element.size * 2 ^ ilog2 n) allocation
          else
            moveToHeap decl vector (ilog2 n) (decl.element.size * 2 ^ ilog2 n)
              allocation := by
      simp only [vecReserve, grows, ↓reduceIte, field, Nat.mod_eq_of_lt bytes]
    rw [shape]
    rw [represents.size] at sizeBound
    exact (relocate_represents plain represents small bytes (by omega)
      (aligned.resolve_left (by omega))).1
  · have unchanged : vecReserve decl vector n allocation = vector := by
      simp [vecReserve, grows]
    rw [unchanged]
    exact represents

/-- Growing does not move elements back into the vector. -/
private theorem growIfFull_onHeap
    {decl : Decl}
    {vector : Vec}
    {allocation : Allocation}
    (onHeap : vector.onHeap = true) :
    (growIfFull decl vector allocation).onHeap = true := by
  unfold growIfFull
  split
  · exact onHeap
  · exact onHeap

/--
Every call within the capacity and byte bounds, whose elements and block are aligned,
acts as its list operation.
-/
theorem step_represents
    {decl : Decl}
    {before after : Vec}
    {values : List (List UInt8)}
    {op : Op}
    (plain : decl.build = .plain)
    (small : decl.slots ≤ 2 ^ 30)
    (represents : Represents decl before values)
    (keeps : KeepsCapacity decl before op)
    (fits : BytesFit decl before op)
    (stores : StoresAligned decl before op)
    (block : BlockAligned decl before op)
    (step : Step decl before op after) :
    Represents decl after (listStep values op) := by
  obtain ⟨sized, performed⟩ := step
  cases op with
  | pushBack element allocation =>
      simp only [perform, Option.some.injEq] at performed
      subst after
      obtain ⟨grown, free⟩ :=
        growIfFull_represents plain small represents keeps fits block
      exact append_represents plain small grown sized free
        (stores.imp_right growIfFull_onHeap)
  | insert index element allocation =>
      by_cases valid : index < before.size
      · simp only [perform, vecInsert, valid, ↓reduceIte, Option.some.injEq] at performed
        subst after
        obtain ⟨grown, free⟩ :=
          growIfFull_represents plain small represents keeps fits block
        exact insert_represents plain small grown sized free
          (by rw [← represents.size]; exact valid)
      · simp [perform, vecInsert, valid] at performed
  | erase index =>
      by_cases valid : index < before.size
      · simp only [perform, vecErase, valid, ↓reduceIte, Option.some.injEq] at performed
        subst after
        exact erase_represents represents (by rw [← represents.size]; exact valid)
      · simp [perform, vecErase, valid] at performed
  | popBack =>
      simp only [perform, Option.some.injEq] at performed
      subst after
      exact popBack_represents represents
  | reserve n allocation =>
      simp only [perform, Option.some.injEq] at performed
      subst after
      exact reserve_represents plain represents keeps fits block

/-- The elements of a represented vector are aligned. -/
private theorem Represents.aligned
    {decl : Decl}
    {vector : Vec}
    {values : List (List UInt8)}
    (represents : Represents decl vector values)
    (occupied : 0 < values.length) :
    Aligned decl vector := by
  unfold Aligned
  cases onHeap : vector.onHeap with
  | true =>
      simpa using represents.heapAligned onHeap
  | false =>
      have small : decl.element.alignment ≤ 2 ^ 3 :=
        represents.inline_of_occupied occupied onHeap
      obtain ⟨exponent, power⟩ := decl.element.alignmentPower
      rw [power] at small
      have divides : decl.element.alignment ∣ 2 ^ 3 :=
        power ▸ Nat.pow_dvd_pow 2 ((Nat.pow_le_pow_iff_right (by decide)).mp small)
      simpa using divides

/-- A represented vector shows its values through `vec_pos`. -/
theorem Represents.elements_eq
    {decl : Decl}
    {vector : Vec}
    {values : List (List UInt8)}
    (represents : Represents decl vector values) :
    elements decl vector = values.map some := by
  apply List.ext_getElem
  · simp [elements, represents.size]
  · intro index _ inside
    rw [List.length_map] at inside
    have readable : index < vector.size ∧ Aligned decl vector := by
      rw [represents.size]
      exact ⟨inside, represents.aligned (by omega)⟩
    simp only [elements, List.getElem_map, List.getElem_range, vecPos, if_pos readable]
    rw [represents.shown index inside]

/-- Concatenated slots of one width read back one by one. -/
private theorem slot_flatten
    {memory : Memory}
    {base width : Nat}
    {values : List (List UInt8)}
    (sized : ∀ value ∈ values, value.length = width)
    (index : Nat)
    (inside : index < values.length) :
    slot (write memory base values.flatten) base width index = values[index] := by
  induction values generalizing memory base index with
  | nil =>
      simp at inside
  | cons first rest inductionHypothesis =>
      have firstSized : first.length = width := sized first (by simp)
      have restSized : ∀ value ∈ rest, value.length = width :=
        fun value member => sized value (List.mem_cons_of_mem first member)
      rw [List.flatten_cons, write_append]
      cases index with
      | zero =>
          simp only [slot, Nat.zero_mul, Nat.add_zero, List.getElem_cons_zero]
          rw [read_write_disjoint (Or.inl (by omega)), read_write_of_length firstSized]
      | succ index =>
          have inRest : index < rest.length := by
            simpa using inside
          have shifted :
              base + (index + 1) * width = base + first.length + index * width := by
            rw [firstSized]
            ring
          simp only [slot, shifted, List.getElem_cons_succ]
          exact inductionHypothesis restSized index inRest

/--
A declared vector shows its initializers when the inline buffer starts where the
functions look for it, or when there are none.
-/
theorem declare_represents
    (decl : Decl)
    (surroundings heap : Memory)
    (placed : InlineAligned decl ∨ decl.initial = []) :
    Represents decl (declare decl surroundings heap) decl.initial where
  bounds :=
    { sizeBound := decl.initialFits
      heapExponent := by simp [declare]
      heapBytes := by simp [declare] }
  size := rfl
  heapAligned := by simp [declare]
  inlineAligned := fun _ => placed
  shown := by
    intro index inside
    rcases placed with aligned | empty
    · have offset : decl.bufOffset - 8 = 0 := by
        rw [InlineAligned] at aligned
        rw [Decl.bufOffset]
        omega
      show slot (declare decl surroundings heap).body 0 decl.element.size index = _
      simp only [declare, offset]
      exact slot_flatten decl.initialSized index inside
    · simp [empty] at inside

/--
In the build without `POW_FACTOR`, every run of calls within the capacity and byte
bounds shows exactly the elements of the list operations, and its capacity is its
allocation.  The inline buffer must be aligned for the elements, or never hold one, and
the allocator must answer with aligned blocks.
-/
theorem elements_follow_list
    (decl : Decl)
    (plain : decl.build = .plain)
    (small : decl.slots ≤ 2 ^ 30)
    (placed : InlineAligned decl ∨ decl.initial = [])
    (surroundings heap : Memory)
    (ops : List Op)
    (final : Vec)
    (run : Run (Step decl) (declare decl surroundings heap) ops final)
    (keeps :
      StepsSatisfy (Step decl) (declare decl surroundings heap) ops
        (fun before op _ => KeepsCapacity decl before op))
    (fits :
      StepsSatisfy (Step decl) (declare decl surroundings heap) ops
        (fun before op _ => BytesFit decl before op))
    (stores :
      StepsSatisfy (Step decl) (declare decl surroundings heap) ops
        (fun before op _ => StoresAligned decl before op))
    (blocks :
      StepsSatisfy (Step decl) (declare decl surroundings heap) ops
        (fun before op _ => BlockAligned decl before op)) :
    elements decl final = (ops.foldl listStep decl.initial).map some ∧
      final.size ≤ vecCapacity decl final ∧
      vecCapacity decl final = allocatedElements decl final := by
  have represents : Represents decl final (ops.foldl listStep decl.initial) := by
    induction run with
    | stop =>
        exact declare_represents decl surroundings heap placed
    | @extend earlier before after op run step inductionHypothesis =>
        rw [List.foldl_append, List.foldl_cons, List.foldl_nil]
        exact step_represents plain small
          (inductionHypothesis keeps.of_append fits.of_append stores.of_append
            blocks.of_append)
          (keeps earlier op [] before after rfl run step)
          (fits earlier op [] before after rfl run step)
          (stores earlier op [] before after rfl run step)
          (blocks earlier op [] before after rfl run step) step
  exact ⟨represents.elements_eq, represents.bounds.sizeBound,
    represents.bounds.capacity_eq_allocated plain⟩

/-- The declaration `v(int, 2, vec, 13, 42)` without `POW_FACTOR`. -/
def plainInts : Decl where
  build := .plain
  element := intType
  declared := 2
  initial := [[13, 0, 0, 0], [42, 0, 0, 0]]
  declaredPositive := Nat.le_succ 1
  initialSized := by decide
  initialFits := by decide

/-- The refinement applies to a push that moves two inline integers to the heap. -/
theorem elements_follow_list_plainInts :
    elements plainInts
        (vecPushBack plainInts (declare plainInts (fun _ => 0) (fun _ => 0))
          [88, 0, 0, 0] zeroAllocation) =
      [some [13, 0, 0, 0], some [42, 0, 0, 0], some [88, 0, 0, 0]] :=
  (elements_follow_list plainInts rfl (by decide) (Or.inl (show 4 ≤ 8 by decide))
    (fun _ => 0) (fun _ => 0) [.pushBack [88, 0, 0, 0] zeroAllocation] _
    (Run.extend .stop ⟨rfl, rfl⟩)
    (StepsSatisfy.single fun _ _ => Or.inr (by decide))
    (StepsSatisfy.single fun _ _ => Or.inr (by decide))
    (StepsSatisfy.single fun _ _ => Or.inl (show 4 ≤ 8 by decide))
    (StepsSatisfy.single fun _ _ => Or.inr (by decide))).1

/-- The element type `long double` of x86-64, aligned to sixteen bytes. -/
def longDoubleType : ElementType where
  size := 16
  alignment := 16
  sizePositive := by decide
  alignmentPower := ⟨4, rfl⟩
  alignmentDivides := Nat.dvd_refl 16

/-- The declaration `v(long double, 1, vec, 1.0L)` without `POW_FACTOR`. -/
def oneLongDouble : Decl where
  build := .plain
  element := longDoubleType
  declared := 1
  initial := [[0, 0, 0, 0, 0, 0, 0, 128, 255, 63, 0, 0, 0, 0, 0, 0]]
  declaredPositive := by decide
  initialSized := by decide
  initialFits := by decide

/--
The initializer of `v(long double, 1, vec, 1.0L)` lies at byte 16 of the union, and
`vec_pos(vec, 0)` points to byte 8, which is not aligned and holds other bytes.
-/
theorem overaligned_initializer_misread :
    ∃ final,
      Run (Step oneLongDouble) (declare oneLongDouble (fun _ => 0) (fun _ => 0)) [] final ∧
        ¬ elements oneLongDouble final = ([].foldl listStep oneLongDouble.initial).map some ∧
        [elementBytes oneLongDouble final 0] ≠ oneLongDouble.initial :=
  ⟨_, .stop, by decide, by decide⟩

end Sysprog.Xvec
