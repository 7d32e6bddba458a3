import Sysprog.XsConcat
import Sysprog.XsGrowth

namespace Sysprog.Xstring

open ByteMemory CStrings

/-!
# Room for a string of any length

The three calls that allocate ask for a power of two from `ilog2`, which is given 32 bits of
the length.  Up to there the buffer they leave has room for the string.
-/

variable
  {Handle : Type}
  [DecidableEq Handle]
  {state : State Handle}
  {contents : Handle → List UInt8}
  {handle string former latter : Handle}
  {allocation : Allocation}

/--
How many bytes were asked for.  `refcount_create` adds seven, so that the data ends with the
padding of the structure.
-/
def allocated (state : State Handle) (handle : Handle) : Option Nat :=
  if (state.xs (some handle)).isPtr then
    (state.heap (state.xs (some handle)).ptr).map fun block => block.length - 7
  else
    some 16

/-- A handle has room for so many bytes and a NUL, and for the size it reports. -/
structure Room (state : State Handle) (handle : Handle) (length : Nat) : Prop where
  allocated : allocated state handle = some (xsCapacity (state.xs (some handle)) + 1)
  length : length ≤ xsCapacity (state.xs (some handle))
  size : xsSize (state.xs (some handle)) ≤ xsCapacity (state.xs (some handle))

omit [DecidableEq Handle] in
/-- A handle that points to a buffer of the right size. -/
theorem Room.of_onHeap
    {address exponent length : Nat}
    {block : Block}
    (onHeap : OnHeap (state.xs (some handle)) address exponent)
    (live : state.heap address = some block)
    (extent : block.length = 2 ^ exponent + 7)
    (room : length < 2 ^ exponent)
    (size : (state.xs (some handle)).size < 2 ^ exponent) :
    Room state handle length := by
  have capacity := onHeap.xsCapacity_eq
  refine ⟨?_, by omega, by rw [onHeap.xsSize_eq]; omega⟩
  rw [Xstring.allocated, if_pos onHeap.isPtr, onHeap.ptr, live, Option.map_some, extent, capacity]
  congr 1
  omega

omit [DecidableEq Handle] in
/-- A short string. -/
theorem Room.of_inline
    {length : Nat}
    (notPtr : (state.xs (some handle)).isPtr = false)
    (room : length ≤ 15) :
    Room state handle length := by
  have capacity : xsCapacity (state.xs (some handle)) = 15 := by
    simp [xsCapacity, notPtr]
  refine ⟨?_, by omega, ?_⟩
  · simp [Xstring.allocated, notPtr, capacity]
  · rw [capacity, xsSize, notPtr, if_neg Bool.false_ne_true]
    omega

omit [DecidableEq Handle] in
/-- Whatever holds a string has room for it. -/
theorem Stores.room
    {text : List UInt8}
    {length : Nat}
    (stores : Stores state.heap (state.xs (some handle)) text)
    (room : length ≤ xsCapacity (state.xs (some handle))) :
    Room state handle length := by
  rcases stores with inPlace | ⟨address, exponent, block, onHeap⟩
  · rw [inPlace.inline.xsCapacity_eq] at room
    exact Room.of_inline inPlace.inline.not_isPtr room
  · have positive := Nat.two_pow_pos exponent
    have fits := onHeap.fits
    rw [onHeap.onHeap.xsCapacity_eq] at room
    exact Room.of_onHeap onHeap.onHeap onHeap.live onHeap.length (by omega)
      (by rw [onHeap.size]; exact fits)

/-! ## `xs_new` -/

/-- `xs_new` of a string that `ilog2` cannot be told overruns the buffer. -/
theorem new_overruns
    {p : CString}
    (long : 2 ^ 32 ≤ p.bytes.length + 1)
    (documented : p.bytes.length < 2 ^ 54)
    (fits : allocation.address < 2 ^ 64) :
    xsNew state (some handle) p allocation = none := by
  have below := ilog2_lt (p.bytes.length + 1)
  have tooSmall := ilog2_wraps long
  generalize exponentEq : ilog2 (p.bytes.length + 1) + 1 = exponent at tooSmall
  obtain ⟨capacity, onHeap, _⟩ :=
    @onHeap_new allocation.address exponent p.bytes.length fits (by omega) documented
  simp only [xsNew, if_pos (show p.bytes.length + 1 > 16 by omega), exponentEq,
    Nat.add_sub_cancel, capacity, refcountCreate, State.assign_same, onHeap.ptr, State.write,
    State.assign_heap, State.setBlock_same, List.length_append, List.length_cons,
    List.length_nil]
  exact if_neg (by omega)

/-- `xs_new` leaves room exactly for the strings below 32 bits. -/
theorem new_room_iff
    (handle : Handle)
    (p : CString)
    (documented : p.bytes.length < 2 ^ 54)
    (fits : allocation.address < 2 ^ 64) :
    (∃ result,
        xsNew state (some handle) p allocation = some result ∧
          Room result handle p.bytes.length) ↔
      p.bytes.length + 1 < 2 ^ 32 := by
  by_cases narrow : p.bytes.length + 1 < 2 ^ 32
  swap
  · simp only [narrow, iff_false]
    rintro ⟨result, returned, _⟩
    rw [new_overruns (by omega) documented fits] at returned
    simp at returned
  simp only [narrow, iff_true]
  by_cases long : 15 < p.bytes.length
  · obtain ⟨_, _, room⟩ := ilog2_spec (show 15 < p.bytes.length + 1 by omega) narrow
    obtain ⟨x, onHeap, size, created⟩ :=
      @new_long_eq _ _ state handle _ _ long (by omega) fits
    refine ⟨_, created, Room.of_onHeap (by rw [State.assign_same]; exact onHeap)
      (State.setBlock_same _ _ _) rfl (by omega) ?_⟩
    rw [State.assign_same, size]
    omega
  · have short : p.bytes.length ≤ 15 := Nat.le_of_not_lt long
    refine ⟨_, new_short_eq short, Room.of_inline ?_ short⟩
    rw [State.assign_same]
    exact (inlineString_new short).inline.not_isPtr

/-! ## `xs_grow` -/

/-- The capacity that `xs_grow` leaves when it allocates. -/
theorem grow_capacity
    {result : State Handle}
    {len : Nat}
    (flags : (state.xs (some handle)).word < 2 ^ 61)
    (fits : allocation.address < 2 ^ 64)
    (tooLong : ¬ len ≤ xsCapacity (state.xs (some handle)))
    (returned : xsGrow state (some handle) len allocation = some result) :
    xsCapacity (result.xs (some handle)) = 2 ^ (ilog2 len + 1) - 1 := by
  have below := ilog2_lt len
  have moved : result.xs (some handle) =
      regrown (state.xs (some handle)) allocation.address (ilog2 len + 1) := by
    cases isPtr : (state.xs (some handle)).isPtr with
    | true =>
        simp only [xsGrow, if_neg tooLong, isPtr, if_true, refcountRealloc, Option.bind_eq_bind,
          Option.bind_eq_some_iff] at returned
        obtain ⟨moved, ⟨count, _, realloc⟩, assigned⟩ := returned
        split at realloc
        · simp at realloc
        · simp only [Option.bind_eq_some_iff] at realloc
          obtain ⟨bytes, _, filled, wrote, freed⟩ := realloc
          obtain rfl := Option.some.inj freed
          obtain rfl := Option.some.inj assigned
          obtain ⟨block, _, _, rfl⟩ := write_block_eq wrote
          rw [State.assign_same]
          rfl
    | false =>
        simp only [xsGrow, if_neg tooLong, isPtr, Bool.false_eq_true, if_false,
          Option.bind_eq_bind, Option.bind_eq_some_iff] at returned
        obtain ⟨filled, wrote, assigned⟩ := returned
        obtain rfl := Option.some.inj assigned
        obtain ⟨block, _, _, rfl⟩ := write_block_eq wrote
        rw [State.assign_same]
        rfl
  rw [moved]
  exact (onHeap_regrown flags fits (by omega)).1.xsCapacity_eq

/-- When `xs_grow` has room for a length and for what the handle says it holds. -/
theorem grow_room_iff
    (valid : Valid state contents)
    (handle : Handle)
    (len : Nat)
    (fresh : Fresh state allocation) :
    (∃ result,
        xsGrow state (some handle) len allocation = some result ∧ Room result handle len) ↔
      len ≤ xsCapacity (state.xs (some handle)) ∨
        (len < 2 ^ 32 ∧
          (((state.xs (some handle)).isPtr = true ∧ refcountGet state (some handle) = some 1) ∨
            ((state.xs (some handle)).isPtr = false ∧
              (state.xs (some handle)).size < 2 ^ (ilog2 len + 1)))) := by
  have stores := valid.strings handle
  by_cases enough : len ≤ xsCapacity (state.xs (some handle))
  · exact iff_of_true ⟨state, if_pos enough, stores.room enough⟩ (Or.inl enough)
  rw [or_iff_right enough]
  by_cases narrow : len < 2 ^ 32
  swap
  · simp only [narrow, false_and, iff_false]
    rintro ⟨result, returned, room⟩
    have flags : (state.xs (some handle)).word < 2 ^ 61 := by
      rcases stores with inPlace | ⟨_, _, _, onHeap⟩
      · exact Nat.lt_trans inPlace.inline.flags (by decide)
      · exact onHeap.onHeap.flags
    have capacity := grow_capacity flags fresh.fits enough returned
    have tooSmall := ilog2_wraps (Nat.le_of_not_lt narrow)
    have length := room.length
    omega
  simp only [narrow, true_and]
  cases isPtr : (state.xs (some handle)).isPtr with
  | true =>
      rw [or_iff_left (by simp), and_iff_right rfl]
      obtain ⟨block, _, live, _⟩ := valid.counts handle _ ⟨isPtr, rfl⟩
      have counted : refcountGet state (some handle) = some block.refcnt := by
        simp [refcountGet, isPtr, live]
      constructor
      · rintro ⟨result, returned, _⟩
        by_contra shared
        rw [counted, Option.some.injEq] at shared
        rw [grow_shared isPtr counted shared enough] at returned
        simp at returned
      · intro unshared
        obtain ⟨result, returned, after, room, _⟩ :=
          valid.grow_unshared fresh isPtr unshared narrow enough
        exact ⟨result, returned, (after.strings handle).room room⟩
  | false =>
      rw [or_iff_right (by simp), and_iff_right rfl]
      have inPlace := stores.inlineString isPtr
      have flags := inPlace.inline.flags
      rw [inPlace.inline.xsCapacity_eq] at enough
      obtain ⟨_, _, below⟩ := ilog2_spec (show 15 < len by omega) narrow
      obtain ⟨onHeap, size⟩ :=
        @onHeap_regrown (state.xs (some handle)) _ (ilog2 len + 1) (by omega) fresh.fits
          (by omega)
      have grew := @grow_inline_eq _ _ _ (some handle) allocation _ isPtr (by omega) narrow
      constructor
      · rintro ⟨result, returned, room⟩
        obtain rfl := Option.some.inj (grew.symm.trans returned)
        have fits := room.size
        rw [State.assign_same, onHeap.xsCapacity_eq, onHeap.xsSize_eq, size] at fits
        omega
      · intro fits
        refine ⟨_, grew, Room.of_onHeap (by rw [State.assign_same]; exact onHeap)
          (State.setBlock_same _ _ _) rfl below ?_⟩
        rw [State.assign_same, size]
        exact fits

/-! ## `xs_concat` -/

/-- The sixteen bytes that a string then is, seen as a handle. -/
def overwrittenHandle (contents : Handle → List UInt8) (string former : Handle) : Xs where
  data := fun index =>
    (contents former ++ contents string ++
      (contents former ++ contents string).take ((contents string).length + 1)).getD index 0

/--
A short string of 15 bytes whose flags are overwritten is still a short string, or there
happens to be a buffer of the right size at the address that its text forms.
-/
def FlagsSurvive
    (state : State Handle)
    (contents : Handle → List UInt8)
    (string former : Handle) : Prop :=
  (state.xs (some string)).isPtr = false →
  (contents string).length + (contents former).length + (contents string).length = 15 →
  (overwrittenHandle contents string former).isPtr = true →
  ∃ block,
    state.heap (overwrittenHandle contents string former).ptr = some block ∧
      block.length - 7 = 2 ^ (overwrittenHandle contents string former).capacity ∧
      15 < 2 ^ (overwrittenHandle contents string former).capacity

/-- Handles with the same sixteen bytes have the same fields. -/
theorem Xs.fields_congr
    {first second : Xs}
    (same : ByteMemory.read first.data 0 16 = ByteMemory.read second.data 0 16) :
    first.isPtr = second.isPtr ∧ first.ptr = second.ptr ∧ first.word = second.word := by
  have lower : ByteMemory.read first.data 0 8 = ByteMemory.read second.data 0 8 := by
    have left := @read_sub first.data 0 16 0 8 (by decide)
    have right := @read_sub second.data 0 16 0 8 (by decide)
    rw [same, ← right] at left
    exact left
  have upper : ByteMemory.read first.data 8 8 = ByteMemory.read second.data 8 8 := by
    have left := @read_sub first.data 0 16 8 8 (by decide)
    have right := @read_sub second.data 0 16 8 8 (by decide)
    rw [same, ← right] at left
    exact left
  have word : first.word = second.word := by
    rw [Xs.word, upper, Xs.word]
  refine ⟨?_, ?_, word⟩
  · rw [Xs.isPtr_eq, word, Xs.isPtr_eq]
  · rw [Xs.ptr, lower, Xs.ptr]

/-- A list seen as a memory reads as the list. -/
private theorem read_getD (bytes : List UInt8) :
    ByteMemory.read (fun index => bytes.getD index 0) 0 bytes.length = bytes := by
  apply List.ext_getElem
  · exact length_read
  · intro index _ inside
    rw [getElem_read, Nat.zero_add, List.getD_eq_getElem _ _ inside]

/-- The bytes of a full short string are those of the handle they form. -/
theorem Overwritten.fields
    {complete : State Handle}
    {data : Memory}
    (overwritten : Overwritten state contents string former complete data)
    (moved : contents former ≠ [])
    (full :
      (contents string).length + (contents former).length + (contents string).length = 15) :
    let x : Xs := { data := data }
    let y := overwrittenHandle contents string former
    x.isPtr = y.isPtr ∧ x.ptr = y.ptr ∧ x.word = y.word := by
  have front : 0 < (contents former).length := List.length_pos_iff.mpr moved
  have length :
      (contents former ++ contents string ++
        (contents former ++ contents string).take ((contents string).length + 1)).length = 16 := by
    simp only [List.length_append, List.length_take]
    omega
  have formed := read_getD
    (contents former ++ contents string ++
      (contents former ++ contents string).take ((contents string).length + 1))
  rw [length] at formed
  have bytes := overwritten.bytes
  rw [full, ← formed] at bytes
  exact Xs.fields_congr bytes

/-- A handle of 15 bytes whose pointer flag is set has room if there is a buffer of its size. -/
private theorem room_of_flagged
    (isPtr : (state.xs (some handle)).isPtr = true) :
    Room (state.assign (some handle) ((state.xs (some handle)).setSize 15)) handle 15 ↔
      ∃ block,
        state.heap (state.xs (some handle)).ptr = some block ∧
          block.length - 7 = 2 ^ (state.xs (some handle)).capacity ∧
          15 < 2 ^ (state.xs (some handle)).capacity := by
  generalize state.xs (some handle) = x at isPtr ⊢
  have flagged : (x.setSize 15).isPtr = true := by
    rw [Xs.isPtr_setSize, isPtr]
  have capacity : xsCapacity (x.setSize 15) = 2 ^ x.capacity - 1 := by
    rw [xsCapacity, if_pos flagged, Xs.capacity_setSize]
  have size : xsSize (x.setSize 15) = 15 := by
    rw [xsSize, if_pos flagged, Xs.size_setSize, Nat.mod_eq_of_lt (by decide)]
  have positive := Nat.two_pow_pos x.capacity
  have found : allocated (state.assign (some handle) (x.setSize 15)) handle =
      (state.heap x.ptr).map fun block => block.length - 7 := by
    rw [allocated, State.assign_same, if_pos flagged, Xs.ptr_setSize, State.assign_heap]
  constructor
  · rintro ⟨room, length, _⟩
    rw [State.assign_same, capacity] at room length
    rw [found] at room
    obtain ⟨block, live, extent⟩ := Option.map_eq_some_iff.mp room
    exact ⟨block, live, by omega, by omega⟩
  · rintro ⟨block, live, extent, room⟩
    refine ⟨?_, ?_, ?_⟩
    · rw [found, live, Option.map_some, extent, State.assign_same, capacity,
        Nat.sub_add_cancel positive]
    · rw [State.assign_same, capacity]
      omega
    · rw [State.assign_same, capacity, size]
      omega

/-- The room that is left where a string that is its own suffix was edited. -/
theorem Overwritten.room_iff
    {complete : State Handle}
    {data : Memory}
    (overwritten : Overwritten state contents string former complete data)
    (valid : Valid state contents)
    (inPlace :
      (contents string).length + (contents former).length + (contents string).length ≤
        xsCapacity (state.xs (some string)))
    (moved : contents former ≠ []) :
    Room
        (setLength complete (some string)
          ((contents string).length + (contents former).length + (contents string).length))
        string
        ((contents string).length + (contents former).length + (contents string).length) ↔
      FlagsSurvive state contents string former := by
  have narrow := (valid.strings string).capacity_lt
  rcases overwritten.owned.own with
    ⟨place, capacity, rfl⟩ |
      ⟨address, exponent, block, place, onHeap, _, _, capacity, live, length, _, _, _⟩
  · have notPtr : (state.xs (some string)).isPtr = false := by
      by_contra isPtr
      rw [xsData, if_pos (by simpa using isPtr)] at place
      simp at place
    rw [capacity] at inPlace
    rcases Nat.lt_or_eq_of_le inPlace with short | full
    · have inline : Inline (complete.xs (some string)) :=
        Inline.of_lastByte (overwritten.flags notPtr short)
      refine iff_of_true (Room.of_inline ?_ inPlace) fun _ full => by omega
      rw [setLength, inline.not_isPtr, if_neg Bool.false_ne_true, State.assign_same,
        Xs.isPtr_setSpaceLeft, inline.not_isPtr]
    · obtain ⟨sameKind, samePtr, sameWord⟩ := overwritten.fields moved full
      have sameCapacity : (complete.xs (some string)).capacity =
          (overwrittenHandle contents string former).capacity := by
        rw [Xs.capacity, sameWord, Xs.capacity]
      simp only [FlagsSurvive, notPtr, full, true_implies, ← sameKind, ← samePtr, ← sameCapacity]
      cases isPtr : (complete.xs (some string)).isPtr with
      | false =>
          refine iff_of_true (Room.of_inline ?_ (Nat.le_refl 15)) (by simp)
          rw [setLength, isPtr, if_neg Bool.false_ne_true, State.assign_same,
            Xs.isPtr_setSpaceLeft, isPtr]
      | true =>
          have formed := @room_of_flagged _ _ complete string isPtr
          simp only [overwritten.heap notPtr] at formed
          rw [setLength, if_pos isPtr, formed]
          exact ⟨fun found _ => found, fun found => found rfl⟩
  · -- In a buffer there is nothing but text.
    have positive := Nat.two_pow_pos exponent
    obtain ⟨resized, size⟩ := @OnHeap.setSize _ _ _ onHeap
      ((contents string).length + (contents former).length + (contents string).length) (by omega)
    refine iff_of_true ?_ ?_
    · rw [setLength, if_pos onHeap.isPtr]
      refine Room.of_onHeap (by rw [State.assign_same]; exact resized) live length (by omega) ?_
      rw [State.assign_same, size]
      omega
    · intro notPtr
      rw [xsData, notPtr, if_neg Bool.false_ne_true] at place
      simp at place

/-- When `xs_concat` has room for the three strings. -/
theorem concat_room_iff
    (valid : Valid state contents)
    (string former latter : Handle)
    (fresh : Fresh state allocation) :
    (∃ result,
        xsConcat state (some string) (some former) (some latter) allocation = some result ∧
          Room result string
            ((contents string).length + (contents former).length + (contents latter).length)) ↔
      (contents string).length + (contents former).length + (contents latter).length < 2 ^ 32 ∧
        ¬ CopiesOverlap state string former latter ∧
        (Overwrites state contents string former latter →
          FlagsSurvive state contents string former) := by
  have sizeEq := (valid.strings string).xsSize_eq
  have presEq := (valid.strings former).xsSize_eq
  have sufsEq := (valid.strings latter).xsSize_eq
  by_cases short :
      (contents string).length + (contents former).length + (contents latter).length < 2 ^ 32
  swap
  · simp only [short, false_and, iff_false]
    rintro ⟨result, returned, _⟩
    rw [concat_overruns valid (by rw [sizeEq, presEq, sufsEq]; omega) fresh] at returned
    simp at returned
  by_cases overlap : CopiesOverlap state string former latter
  · simp only [overlap, not_true, false_and, and_false, iff_false]
    rintro ⟨result, returned, _⟩
    rw [overlap.concat_eq_none] at returned
    cases returned
  simp only [short, overlap, not_false_eq_true, true_and]
  by_cases overwrites : Overwrites state contents string former latter
  · simp only [overwrites, true_implies]
    have other := overwrites.former_ne valid overlap
    obtain ⟨rfl, inPlace, unshared, moved⟩ := overwrites
    obtain ⟨complete, data, returned, overwritten⟩ :=
      valid.concat_own fresh inPlace unshared moved other
    rw [← overwritten.room_iff valid inPlace moved]
    constructor
    · rintro ⟨result, returnedAgain, room⟩
      obtain rfl := Option.some.inj (returned.symm.trans returnedAgain)
      exact room
    · intro room
      exact ⟨_, returned, room⟩
  · simp only [overwrites, false_implies, iff_true]
    obtain ⟨result, returned, after⟩ := valid.concat_apart overlap overwrites short fresh
    have stores := after.strings string
    have enough := stores.size_le_capacity
    rw [Function.update_self] at stores
    rw [stores.xsSize_eq, List.length_append, List.length_append] at enough
    exact ⟨result, returned, stores.room (by omega)⟩

/-! ## The three calls -/

/--
The lengths and handles for which the three calls leave a buffer with room for the string:
below 32 bits, where `xs_grow` may replace the buffer and reads a size that fits, and where
`xs_concat` does not copy onto what it copies and does not make a pointer of text.
-/
theorem allocations_leave_room_iff
    (valid : Valid state contents)
    (fresh : Fresh state allocation) :
    (∀ x p,
        p.bytes.length < 2 ^ 54 →
        ((∃ result,
            xsNew state (some x) p allocation = some result ∧ Room result x p.bytes.length) ↔
          p.bytes.length + 1 < 2 ^ 32)) ∧
      (∀ x len,
        (∃ result, xsGrow state (some x) len allocation = some result ∧ Room result x len) ↔
          len ≤ xsCapacity (state.xs (some x)) ∨
            (len < 2 ^ 32 ∧
              (((state.xs (some x)).isPtr = true ∧ refcountGet state (some x) = some 1) ∨
                ((state.xs (some x)).isPtr = false ∧
                  (state.xs (some x)).size < 2 ^ (ilog2 len + 1))))) ∧
      ∀ string former latter,
        (∃ result,
            xsConcat state (some string) (some former) (some latter) allocation = some result ∧
              Room result string
                ((contents string).length + (contents former).length +
                  (contents latter).length)) ↔
          (contents string).length + (contents former).length + (contents latter).length <
              2 ^ 32 ∧
            ¬ CopiesOverlap state string former latter ∧
            (Overwrites state contents string former latter →
              FlagsSurvive state contents string former) :=
  ⟨fun x p documented => new_room_iff x p documented fresh.fits,
    fun x len => grow_room_iff valid x len fresh,
    fun string former latter => concat_room_iff valid string former latter fresh⟩

/-- Thirty letters are put around and behind themselves in a new buffer. -/
theorem allocations_leave_room_letters :
    ∃ state,
      xsNew (State.initial : State Bool) (some true) letters ⟨4096, fun _ => 0⟩ = some state ∧
        ∃ result,
          xsConcat state (some true) (some true) (some true) ⟨8192, fun _ => 0⟩ = some result ∧
            Room result true (30 + 30 + 30) := by
  have created : ∃ state,
      xsNew (State.initial : State Bool) (some true) letters ⟨4096, fun _ => 0⟩ = some state ∧
        Fresh state ⟨8192, fun _ => 0⟩ ∧
        xsCapacity (state.xs (some true)) = 31 ∧ xsSize (state.xs (some true)) = 30 :=
    ⟨_, rfl, ⟨rfl, by decide⟩, by decide, by decide⟩
  obtain ⟨state, created, fresh, capacity, size⟩ := created
  have valid := valid_alone created (by decide)
  refine ⟨state, created,
    ((allocations_leave_room_iff valid fresh).2.2 true true true).mpr ⟨by decide, ?_, ?_⟩⟩
  · intro overlap
    have inPlace := overlap.inPlace
    rw [capacity, size] at inPlace
    exact absurd inPlace (by decide)
  · intro overwrites
    have inPlace := overwrites.inPlace
    rw [capacity] at inPlace
    exact absurd inPlace (by decide)

/-- A string of `2 ^ 32 - 1` letters. -/
def fourGigabytes : CString where
  bytes := List.replicate (2 ^ 32 - 1) 97
  noNul := by
    rw [List.mem_replicate]
    rintro ⟨_, letter⟩
    exact absurd letter (by decide)

/--
`xs_new` has no room for `2 ^ 32 - 1` letters, and `xs_grow` none for the size that it reads
in twelve letters.
-/
theorem no_room :
    (fourGigabytes.bytes.length < 2 ^ 54 ∧
      ¬ ∃ result,
        xsNew (State.initial : State Bool) (some true) fourGigabytes ⟨4096, fun _ => 0⟩ =
            some result ∧
          Room result true fourGigabytes.bytes.length) ∧
      ∃ state contents,
        xsNew (State.initial : State Bool) (some true) ⟨List.replicate 12 97, by decide⟩
            ⟨4096, fun _ => 0⟩ = some state ∧
          Valid state contents ∧
          Fresh state ⟨8192, fun _ => 0⟩ ∧
          ¬ ∃ result,
            xsGrow state (some true) 20 ⟨8192, fun _ => 0⟩ = some result ∧
              Room result true 20 := by
  have length : fourGigabytes.bytes.length = 2 ^ 32 - 1 := List.length_replicate
  have created : ∃ state,
      xsNew (State.initial : State Bool) (some true) ⟨List.replicate 12 97, by decide⟩
          ⟨4096, fun _ => 0⟩ = some state ∧
        Fresh state ⟨8192, fun _ => 0⟩ ∧
        (state.xs (some true)).isPtr = false ∧
        ¬ 20 ≤ xsCapacity (state.xs (some true)) ∧
        ¬ (state.xs (some true)).size < 2 ^ (ilog2 20 + 1) :=
    ⟨_, rfl, ⟨rfl, by decide⟩, by decide, by decide, by decide⟩
  obtain ⟨state, created, fresh, notPtr, tooLong, unsized⟩ := created
  have valid := valid_alone created (by decide)
  refine ⟨⟨by omega, ?_⟩, state, _, created, valid, fresh, ?_⟩
  · rw [new_room_iff true fourGigabytes (by omega) (by decide)]
    omega
  · rw [grow_room_iff valid true 20 fresh]
    rintro (enough | ⟨_, ⟨isPtr, _⟩ | ⟨_, sized⟩⟩)
    · exact tooLong enough
    · rw [notPtr] at isPtr
      simp at isPtr
    · exact unsized sized

end Sysprog.Xstring
