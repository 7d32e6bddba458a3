import Sysprog.XsLifetimes

namespace Sysprog.Xstring

open ByteMemory CStrings

/-!
# Which strings `xs_grow` keeps

`xs_grow` moves the bytes of a handle to a larger buffer and sets every field of the
handle but its size.  An unshared buffer is replaced with its size in place.  A shared
buffer is refused, and a short string has characters where the size is read.
-/

variable
  {Handle : Type}
  [DecidableEq Handle]
  {state : State Handle}
  {contents : Handle → List UInt8}
  {x : Handle}
  {len : Nat}
  {allocation : Allocation}

/--
`xs_grow` returns with room for `len` bytes, the string of `x` is the same, and so are
all other handles and their strings.
-/
def Grows
    (state : State Handle)
    (contents : Handle → List UInt8)
    (x : Handle)
    (len : Nat)
    (allocation : Allocation) : Prop :=
  ∃ result,
    xsGrow state (some x) len allocation = some result ∧
      Holds result x (contents x) ∧
      len ≤ xsCapacity (result.xs (some x)) ∧
      ∀ other,
        other ≠ x →
        result.xs (some other) = state.xs (some other) ∧ Holds result other (contents other)

omit [DecidableEq Handle] in
/-- A handle and its buffer in terms of the string it holds. -/
theorem HeapString.backed
    {heap : Heap}
    {x : Xs}
    {string : List UInt8}
    {exponent : Nat}
    {block : Block}
    (onHeap : HeapString heap x string x.ptr exponent block) :
    Backed heap x exponent block where
  onHeap := onHeap.onHeap
  atLeast := onHeap.atLeast
  atMost := onHeap.atMost
  sized := by rw [onHeap.size]; exact onHeap.fits
  live := onHeap.live
  length := onHeap.length

/-! ## Strings in a buffer -/

/-- Without its only handle a buffer is detached, and the other handles hold their strings. -/
private theorem others_unshared
    (valid : Valid state contents)
    (fresh : Fresh state allocation)
    (isPtr : (state.xs (some x)).isPtr = true)
    (unshared : refcountGet state (some x) = some 1) :
    Valid (state.assign (some x) Xs.literalEmpty) (Function.update contents x []) ∧
      Detached (state.assign (some x) Xs.literalEmpty) (state.xs (some x)).ptr := by
  obtain ⟨cowed, data, copied, owned, _⟩ := valid.cow x fresh
  have same : xsCow state (some x) allocation = some state := by
    simp [xsCow, unshared]
  obtain rfl := Option.some.inj (same.symm.trans copied)
  refine ⟨owned.others, ?_⟩
  rcases owned.own with ⟨place, _⟩ | ⟨address, _, _, _, onHeap, _, _, _, _, _, _, _, alone⟩
  · simp [xsData, isPtr] at place
  · rw [onHeap.ptr]
    exact detached_alone alone

/-- An unshared buffer is replaced by a larger one. -/
theorem Valid.grow_unshared
    (valid : Valid state contents)
    (fresh : Fresh state allocation)
    (isPtr : (state.xs (some x)).isPtr = true)
    (unshared : refcountGet state (some x) = some 1)
    (short : len < 2 ^ 32)
    (tooLong : ¬ len ≤ xsCapacity (state.xs (some x))) :
    ∃ result,
      xsGrow state (some x) len allocation = some result ∧
        Valid result contents ∧
        len ≤ xsCapacity (result.xs (some x)) ∧
        ∀ other, other ≠ x → result.xs (some other) = state.xs (some other) := by
  obtain ⟨exponent, block, onHeap⟩ := (valid.strings x).heapString isPtr
  have backed := onHeap.backed
  have single : block.refcnt = 1 := by
    simpa [refcountGet, isPtr, onHeap.live] using unshared
  have room := (valid.strings x).capacity_ge
  obtain ⟨atLeast, atMost, below⟩ := ilog2_spec (show 15 < len by omega) short
  have wider := backed.narrower below tooLong
  have larger : 2 ^ exponent ≤ 2 ^ (ilog2 len + 1) := Nat.pow_le_pow_right (by decide) wider
  have fits := onHeap.fits
  have grew := grow_unshared_eq fresh backed single wider tooLong
  obtain ⟨others, alone⟩ := others_unshared valid fresh isPtr unshared
  obtain ⟨regrownHeap, size⟩ :=
    @onHeap_regrown _ _ (ilog2 len + 1) onHeap.onHeap.flags fresh.fits (by omega)
  generalize filledEq : Block.mk 1 _ (2 ^ (ilog2 len + 1) + 7) = filled at grew
  have bytes : ByteMemory.read filled.data 0 ((contents x).length + 1) = contents x ++ [0] := by
    rw [← filledEq, onHeap.size, onHeap.bytes]
    simp only
    exact read_write_of_length List.length_append
  have unused : ((state.assign (some x) Xs.literalEmpty).xs (some x)).isPtr = false := by
    rw [State.assign_same]
    exact inline_literalEmpty.1.not_isPtr
  have live : (((state.assign (some x) Xs.literalEmpty).setBlock allocation.address
      (some filled)).setBlock (state.xs (some x)).ptr none).heap allocation.address =
        some filled := by
    rw [State.setBlock_other _ (backed.ptr_ne fresh.free).symm, State.setBlock_same]
  refine ⟨_, grew, ?_, ?_, ?_⟩
  · have detached := others.detached_of_free fresh.free
    have moved := ((others.setBlock detached (some filled)).setBlock alone none).assign_block
      unused detached
      ⟨regrownHeap, atLeast, atMost, size.trans onHeap.size, by omega, live, by rw [← filledEq],
        bytes⟩
      (by rw [← filledEq])
    rw [Function.update_idem, Function.update_eq_self, ← State.setBlock_assign,
      ← State.setBlock_assign, State.assign_assign] at moved
    exact moved
  · rw [State.assign_same, regrownHeap.xsCapacity_eq]
    omega
  · intro other different
    exact State.assign_other _ (by simpa using different)

/-- A shared buffer fails the assertion of `refcount_realloc`. -/
theorem grow_shared
    {count : Nat}
    (isPtr : (state.xs (some x)).isPtr = true)
    (counted : refcountGet state (some x) = some count)
    (shared : count ≠ 1)
    (tooLong : ¬ len ≤ xsCapacity (state.xs (some x))) :
    xsGrow state (some x) len allocation = none := by
  simp only [xsGrow, if_neg tooLong, isPtr, if_true, refcountRealloc, counted,
    Option.bind_eq_bind, Option.bind_some, ne_eq, shared, not_false_eq_true, Option.bind_none]

/-! ## Short strings -/

/--
A short string that grows: its bytes are in the new buffer, and its size is what the
bit-field of the heap layout reads in them.
-/
theorem Valid.grow_inline
    (valid : Valid state contents)
    (fresh : Fresh state allocation)
    (notPtr : (state.xs (some x)).isPtr = false)
    (short : len < 2 ^ 32)
    (tooLong : ¬ len ≤ xsCapacity (state.xs (some x))) :
    ∃ result,
      xsGrow state (some x) len allocation = some result ∧
        xsSize (result.xs (some x)) = (state.xs (some x)).size ∧
        len ≤ xsCapacity (result.xs (some x)) ∧
        (∀ other, other ≠ x → result.xs (some other) = state.xs (some other)) ∧
        ((state.xs (some x)).size = xsSize (state.xs (some x)) → Valid result contents) := by
  have inPlace := (valid.strings x).inlineString notPtr
  have length := inPlace.length
  rw [inPlace.inline.xsCapacity_eq] at tooLong
  obtain ⟨atLeast, atMost, below⟩ := ilog2_spec (show 15 < len by omega) short
  have larger : 2 ^ 5 ≤ 2 ^ (ilog2 len + 1) := Nat.pow_le_pow_right (by decide) atLeast
  have flags := inPlace.inline.flags
  obtain ⟨onHeap, size⟩ :=
    @onHeap_regrown (state.xs (some x)) _ (ilog2 len + 1) (by omega) fresh.fits (by omega)
  have grew := @grow_inline_eq _ _ _ (some x) allocation _ notPtr (by omega) short
  generalize filledEq : Block.mk 1 _ (2 ^ (ilog2 len + 1) + 7) = filled at grew
  refine ⟨_, grew, ?_, ?_, ?_, ?_⟩
  · rw [State.assign_same, onHeap.xsSize_eq, size]
  · rw [State.assign_same, onHeap.xsCapacity_eq]
    omega
  · intro other different
    exact State.assign_other _ (by simpa using different)
  · intro sameSize
    have bytes : ByteMemory.read filled.data 0 ((contents x).length + 1) = contents x ++ [0] := by
      have whole := @read_sub (state.xs (some x)).data 0 16 0 ((contents x).length + 1) (by omega)
      rw [← filledEq, ← inPlace.bytes]
      simp only
      rw [read_write_take (by rw [length_read]; omega)]
      exact whole.symm
    have detached := valid.detached_of_free fresh.free
    have moved := (valid.setBlock detached (some filled)).assign_block notPtr detached
      ⟨onHeap, atLeast, atMost, by rw [size, sameSize, inPlace.xsSize_eq], by omega,
        State.setBlock_same _ _ _, by rw [← filledEq], bytes⟩
      (by rw [← filledEq])
    rw [Function.update_eq_self] at moved
    exact moved

/-! ## All strings -/

/--
`xs_grow` keeps its string and every other handle exactly if the string need not grow,
or its buffer is not shared, or the size bit-field of a short string reads, in its
characters, as its length.
-/
theorem grows_iff
    (valid : Valid state contents)
    (x : Handle)
    (short : len < 2 ^ 32)
    (fresh : Fresh state allocation) :
    Grows state contents x len allocation ↔
      len ≤ xsCapacity (state.xs (some x)) ∨
        ((state.xs (some x)).isPtr = true ∧ refcountGet state (some x) = some 1) ∨
        ((state.xs (some x)).isPtr = false ∧
          (state.xs (some x)).size = xsSize (state.xs (some x))) := by
  by_cases enough : len ≤ xsCapacity (state.xs (some x))
  · refine iff_of_true ⟨state, if_pos enough, valid.holds x, enough, ?_⟩ (Or.inl enough)
    exact fun other _ => ⟨rfl, valid.holds other⟩
  rw [or_iff_right enough]
  cases isPtr : (state.xs (some x)).isPtr with
  | true =>
      rw [or_iff_left (by simp), and_iff_right rfl]
      constructor
      · rintro ⟨result, returned, _⟩
        obtain ⟨block, _, live, _⟩ := valid.counts x _ ⟨isPtr, rfl⟩
        have counted : refcountGet state (some x) = some block.refcnt := by
          simp [refcountGet, isPtr, live]
        by_contra shared
        rw [counted, Option.some.injEq] at shared
        rw [grow_shared isPtr counted shared enough] at returned
        simp at returned
      · intro unshared
        obtain ⟨result, returned, after, room, others⟩ :=
          valid.grow_unshared fresh isPtr unshared short enough
        exact ⟨result, returned, after.holds x, room,
          fun other different => ⟨others other different, after.holds other⟩⟩
  | false =>
      rw [or_iff_right (by simp), and_iff_right rfl]
      obtain ⟨result, returned, size, room, others, keeps⟩ :=
        valid.grow_inline fresh isPtr short enough
      constructor
      · rintro ⟨again, returnedAgain, held, _⟩
        obtain rfl := Option.some.inj (returned.symm.trans returnedAgain)
        rw [← size, held.size, (valid.strings x).xsSize_eq]
      · intro sameSize
        have after := keeps sameSize
        exact ⟨result, returned, after.holds x, room,
          fun other different => ⟨others other different, after.holds other⟩⟩

/-- A string of thirty letters. -/
def letters : CString :=
  ⟨List.replicate 30 97, by decide⟩

theorem grows_letters :
    ∃ state contents,
      xsNew (State.initial : State Bool) (some true) letters ⟨4096, fun _ => 0⟩ = some state ∧
        contents true = letters.bytes ∧
        Grows state contents true 100 ⟨8192, fun _ => 0⟩ := by
  have created : ∃ state,
      xsNew (State.initial : State Bool) (some true) letters ⟨4096, fun _ => 0⟩ = some state ∧
        Fresh state ⟨8192, fun _ => 0⟩ ∧
        (state.xs (some true)).isPtr = true ∧
        refcountGet state (some true) = some 1 :=
    ⟨_, rfl, ⟨rfl, by decide⟩, rfl, rfl⟩
  obtain ⟨state, created, fresh, isPtr, unshared⟩ := created
  exact ⟨state, _, created, rfl,
    (grows_iff (valid_alone created (by decide)) true (by decide) fresh).mpr
      (Or.inr (Or.inl ⟨isPtr, unshared⟩))⟩

/-- A short string of two letters loses its size when it grows. -/
theorem short_string_loses_size :
    ∃ state contents,
      xsNew (State.initial : State Bool) (some true) ⟨[97, 98], by decide⟩
          ⟨4096, fun _ => 0⟩ = some state ∧
        Valid state contents ∧
        contents true = [97, 98] ∧
        Fresh state ⟨8192, fun _ => 0⟩ ∧
        ¬ Grows state contents true 20 ⟨8192, fun _ => 0⟩ := by
  have created : ∃ state,
      xsNew (State.initial : State Bool) (some true) ⟨[97, 98], by decide⟩
          ⟨4096, fun _ => 0⟩ = some state ∧
        Fresh state ⟨8192, fun _ => 0⟩ ∧
        (state.xs (some true)).isPtr = false ∧
        xsCapacity (state.xs (some true)) = 15 ∧
        (state.xs (some true)).size = 0 :=
    ⟨_, rfl, ⟨rfl, by decide⟩, rfl, rfl, by decide⟩
  obtain ⟨state, created, fresh, notPtr, capacity, unsized⟩ := created
  have valid := valid_alone created (by decide)
  refine ⟨state, _, created, valid, rfl, fresh, ?_⟩
  rintro ⟨result, returned, held, _⟩
  obtain ⟨again, returnedAgain, size, _⟩ :=
    @Valid.grow_inline _ _ _ _ _ 20 _ valid fresh notPtr (by decide) (by rw [capacity]; decide)
  obtain rfl := Option.some.inj (returnedAgain.symm.trans returned)
  rw [held.size, unsized] at size
  exact absurd size (by decide)

end Sysprog.Xstring
