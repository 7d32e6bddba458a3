import Sysprog.XsTokens

namespace Sysprog.Xstring

open ByteMemory CStrings Execution MachineWord ReferenceCounts

/-!
# Counts in programs of calls

The calls that edit bytes: concatenation, with its arguments in any combination,
trimming, cutting a token, and growing.  They keep the counts exact as long as no edit
of a short string reaches the byte with its flags.
-/

variable
  {Handle : Type}
  [DecidableEq Handle]
  {state : State Handle}
  {handle : Handle}

/-! ## Editing the bytes of a handle -/

/-- A state reached from `start` by editing bytes of a handle, none of them its pointer flag. -/
structure Editing (start state : State Handle) (handle : Handle) : Prop where
  edits : Edits start state (some handle)
  flag :
    (start.xs (some handle)).isPtr = false →
    (state.xs (some handle)).isPtr = false ∧ state.heap = start.heap

section Editing

variable {start : State Handle} {offset limit : Nat} {bytes : List UInt8}

omit [DecidableEq Handle] in
theorem Editing.refl (state : State Handle) (handle : Handle) : Editing state state handle where
  edits := ⟨fun _ => rfl, fun _ => rfl, fun _ _ => rfl, fun _ => rfl⟩
  flag := fun notPtr => ⟨notPtr, rfl⟩

/-- A write to the bytes of a short string keeps the flag if it ends before it or clears it. -/
private theorem isPtr_write
    {x : Xs}
    {data : Memory}
    (notPtr : x.isPtr = false)
    (written : data = ByteMemory.write x.data offset bytes)
    (clear : offset + bytes.length ≤ 15 ∨ bytes.getLast? = some 0)
    (inside : offset + bytes.length ≤ 16) :
    (Xs.mk data).isPtr = false := by
  subst written
  by_cases short : offset + bytes.length ≤ 15
  · have same : ByteMemory.write x.data offset bytes 15 = x.data 15 :=
      write_outside (Or.inr short)
    simp only [Xs.isPtr, same] at notPtr ⊢
    exact notPtr
  · have last : bytes.getLast? = some 0 := by
      rcases clear with ends | cleared
      · exact absurd ends short
      · exact cleared
    obtain ⟨front, rfl⟩ := List.getLast?_eq_some_iff.mp last
    have zero : ByteMemory.write x.data offset (front ++ [0]) 15 = 0 := by
      rw [List.length_append, List.length_singleton] at short inside
      have there : 15 = offset + front.length := by omega
      rw [there, write_inside (by simp)]
      simp
    simp [Xs.isPtr, zero]

/-- One more write to the data of the handle. -/
theorem Editing.write
    (editing : Editing start state handle)
    (bound : start.extent (xsData start (some handle)) = some limit)
    (inside : offset + bytes.length ≤ limit)
    (clear :
      (start.xs (some handle)).isPtr = false →
      offset + bytes.length ≤ 15 ∨ bytes.getLast? = some 0) :
    ∃ result,
      state.write (xsData start (some handle)) offset bytes = some result ∧
        Editing start result handle := by
  cases isPtr : (start.xs (some handle)).isPtr with
  | true =>
      simp only [xsData, isPtr, if_true] at bound ⊢
      rw [← editing.edits.extent] at bound
      obtain ⟨result, wrote, edits⟩ := write_block (some handle) bound inside
      refine ⟨result, wrote, editing.edits.trans edits, ?_⟩
      intro notPtr
      rw [isPtr] at notPtr
      simp at notPtr
  | false =>
      obtain ⟨notPtr, heap⟩ := editing.flag isPtr
      simp only [xsData, isPtr, Bool.false_eq_true, if_false] at bound ⊢
      obtain rfl : 16 = limit := by simpa [State.extent] using bound
      obtain ⟨result, wrote, edits, sameHeap, data⟩ := write_inline notPtr inside
      refine ⟨result, wrote, editing.edits.trans edits, fun _ => ⟨?_, sameHeap.trans heap⟩⟩
      exact isPtr_write notPtr data (clear isPtr) inside

omit [DecidableEq Handle] in
/-- Editing keeps the counts exact. -/
theorem Editing.accounted
    (editing : Editing start state handle)
    (accounted : Accounted start) :
    Accounted state := by
  have touches := editing.edits.touches (Spares.refl start handle).touches
  cases isPtr : (start.xs (some handle)).isPtr with
  | true =>
      have same := editing.edits.pointer isPtr
      refine accounted.of_touches touches ?_ ?_
      · rw [editing.edits.ledger_eq (congrArg Xs.held same)]
        exact accounted.exact
      · intro _
        obtain ⟨exponent, block, backed⟩ := accounted.backed handle isPtr
        have lengths := editing.edits.lengths (start.xs (some handle)).ptr
        rw [backed.live] at lengths
        obtain ⟨latter, live, length⟩ := Option.map_eq_some_iff.mp lengths
        rw [same]
        exact ⟨exponent, latter, { backed with live := live, length := length.trans backed.length }⟩
  | false =>
      obtain ⟨notPtr, _⟩ := editing.flag isPtr
      refine accounted.of_touches touches ?_ ?_
      · have held : (state.xs (some handle)).held = (start.xs (some handle)).held := by
          rw [Xs.held_of_not_isPtr notPtr, Xs.held_of_not_isPtr isPtr]
        rw [editing.edits.ledger_eq held]
        exact accounted.exact
      · intro wasPtr
        rw [notPtr] at wasPtr
        simp at wasPtr

/-- The handle may be assigned after an edit. -/
private theorem Touches.assign
    {before : State Handle}
    (touches : Touches before state handle)
    (x : Xs) :
    Touches before (state.assign (some handle) x) handle := by
  refine ⟨?_, touches.lengths⟩
  intro other different
  exact (state.assign_other (by simpa using different)).trans (touches.others other different)

/-- Setting the size of a pointer handle keeps the counts exact. -/
private theorem Accounted.setSize
    {length : Nat}
    (accounted : Accounted state)
    (isPtr : (state.xs (some handle)).isPtr = true)
    (fits : length ≤ xsCapacity (state.xs (some handle))) :
    Accounted (state.assign (some handle) ((state.xs (some handle)).setSize length)) := by
  obtain ⟨exponent, block, backed⟩ := accounted.backed handle isPtr
  have narrow : 2 ^ exponent ≤ 2 ^ 32 := Nat.pow_le_pow_right (by decide) backed.atMost
  have positive := Nat.two_pow_pos exponent
  rw [backed.onHeap.xsCapacity_eq] at fits
  obtain ⟨resized, size⟩ := backed.onHeap.setSize (show length < 2 ^ 54 by omega)
  refine accounted.of_touches ((Spares.refl state handle).touches.assign _) ?_ ?_
  · rw [ledger_assign, Xs.held_of_isPtr resized.isPtr, Xs.ptr_setSize, ← Xs.held_of_isPtr isPtr]
    have unchanged : Function.update (ledger state).holds handle
        (state.xs (some handle)).held = (ledger state).holds :=
      Function.update_eq_self handle (ledger state).holds
    rw [unchanged]
    exact accounted.exact
  · intro _
    refine ⟨exponent, block, ?_⟩
    rw [State.assign_same]
    exact
      { onHeap := by rw [Xs.ptr_setSize]; exact resized
        atLeast := backed.atLeast
        atMost := backed.atMost
        sized := by omega
        live := by rw [Xs.ptr_setSize]; exact backed.live
        length := backed.length }

/-- Setting the length after an edit keeps the counts exact. -/
theorem Editing.setLength
    {before : State Handle}
    {length : Nat}
    (editing : Editing start state handle)
    (accounted : Accounted start)
    (touches : Touches before start handle)
    (fits : length ≤ xsCapacity (start.xs (some handle))) :
    Accounted (setLength state (some handle) length) ∧
      Touches before (setLength state (some handle) length) handle := by
  have edited := editing.accounted accounted
  have touched := editing.edits.touches touches
  cases isPtr : (start.xs (some handle)).isPtr with
  | true =>
      have same := editing.edits.pointer isPtr
      rw [← same] at isPtr fits
      rw [Xstring.setLength, if_pos isPtr]
      exact ⟨edited.setSize isPtr fits, touched.assign _⟩
  | false =>
      obtain ⟨notPtr, _⟩ := editing.flag isPtr
      have stillNot : ((state.xs (some handle)).setSpaceLeft (15 - length)).isPtr = false := by
        rw [Xs.isPtr_setSpaceLeft]
        exact notPtr
      rw [Xstring.setLength, if_neg (by rw [notPtr]; decide)]
      exact ⟨(edited.assign_inline notPtr stillNot).1, touched.assign _⟩

end Editing

/-! ## Concatenation -/

/--
The call of `xs_concat` puts no other byte than a terminator where a short string has
its flags: if the result is a short string of 15 bytes, the suffix is another handle and
has a NUL behind its bytes.
-/
def EndsClear (state : State Handle) (string former latter : Handle) : Prop :=
  (state.xs (some string)).isPtr = false →
  xsSize (state.xs (some string)) + xsSize (state.xs (some former)) +
      xsSize (state.xs (some latter)) = 15 →
  latter ≠ string ∧
    state.read (xsData state (some latter)) (xsSize (state.xs (some latter))) 1 = some [0]

omit [DecidableEq Handle] in
/-- The data of a handle is read from that handle and the heap. -/
private theorem read_data_congr
    {result : State Handle}
    {other : Handle}
    (same : result.xs (some other) = state.xs (some other))
    (heap : result.heap = state.heap)
    (offset length : Nat) :
    result.read (xsData state (some other)) offset length =
      state.read (xsData state (some other)) offset length := by
  cases isPtr : (state.xs (some other)).isPtr with
  | false => simp only [xsData, isPtr, Bool.false_eq_true, if_false, State.read, same]
  | true => simp only [xsData, isPtr, if_true, State.read, heap]

omit [DecidableEq Handle] in
/-- The last of some bytes read is the byte at their end. -/
private theorem getLast_of_read
    {place : Place Handle}
    {count : Nat}
    {bytes : List UInt8}
    (readable : state.read place 0 (count + 1) = some bytes)
    (length : bytes.length = count + 1)
    (closing : state.read place count 1 = some [0]) :
    bytes.getLast? = some 0 := by
  have last := State.read_sub readable (show count + 1 ≤ count + 1 from Nat.le_refl _)
  rw [closing] at last
  have ends : bytes = bytes.take count ++ [0] := by
    have rest : bytes.drop count = [0] := by
      have whole : (bytes.drop count).take 1 = bytes.drop count :=
        List.take_of_length_le (by rw [List.length_drop]; omega)
      rw [← whole]
      exact (Option.some.inj last).symm
    rw [← rest, List.take_append_drop]
  rw [ends]
  simp

section Places

variable {cowed : State Handle} {other : Handle}

omit [DecidableEq Handle] in
/-- The data of another handle is elsewhere. -/
private theorem Cowed.other_place_ne
    (cow : Cowed state cowed handle)
    (different : other ≠ handle) :
    xsData state (some other) ≠ xsData cowed (some handle) := by
  have kept := cow.spares.others other different
  cases isPtr : (cowed.xs (some handle)).isPtr with
  | false =>
      rw [xsData, xsData, isPtr, if_neg Bool.false_ne_true]
      split
      · simp
      · simpa using different
  | true =>
      rw [xsData, xsData, if_pos isPtr]
      split
      next otherPtr =>
        intro same
        refine cow.alone _ other (Xs.held_of_isPtr isPtr) different ?_
        rw [kept, Xs.held_of_isPtr otherPtr, Place.block.inj same]
      next => simp

omit [DecidableEq Handle] in
/-- The copy of a shared buffer is elsewhere. -/
private theorem Cowed.place_ne
    (cow : Cowed state cowed handle)
    (accounted : Accounted state)
    (shared : Shared state handle) :
    xsData state (some handle) ≠ xsData cowed (some handle) := by
  obtain ⟨count, counted, several⟩ := shared
  cases isPtr : (state.xs (some handle)).isPtr with
  | false =>
      rw [refcountGet_inline isPtr, Option.some.injEq] at counted
      omega
  | true =>
      have held : (ledger state).holds handle = some (state.xs (some handle)).ptr :=
        Xs.held_of_isPtr isPtr
      rw [refcountGet, if_pos isPtr] at counted
      obtain ⟨other, different, holds⟩ := (accounted.exact.shared_iff held counted).mp several
      have stillPtr := cow.isPtr.trans isPtr
      rw [xsData, if_pos isPtr, xsData, if_pos stillPtr]
      intro same
      refine cow.alone _ other (Xs.held_of_isPtr stillPtr) different ?_
      rw [cow.spares.others other different, ← Place.block.inj same]
      exact holds

omit [DecidableEq Handle] in
/-- Only a string that shares nothing is read where it is edited. -/
private theorem Cowed.same_place
    (cow : Cowed state cowed handle)
    (accounted : Accounted state)
    (same : xsData cowed (some handle) = xsData state (some other)) :
    other = handle ∧ ¬ Shared state handle := by
  have own : other = handle := by
    by_contra different
    exact cow.other_place_ne different same.symm
  subst own
  exact ⟨rfl, fun shared => cow.place_ne accounted shared same.symm⟩

end Places

/-- The path of `xs_concat` that edits the string in place. -/
private theorem concat_inPlace_counts
    {string former latter : Handle}
    {allocation : Allocation}
    (accounted : Accounted state)
    (apart : ¬ CopiesOverlap state string former latter)
    (clear : EndsClear state string former latter)
    (fresh : Fresh state allocation)
    (enough :
      xsSize (state.xs (some string)) + xsSize (state.xs (some former)) +
          xsSize (state.xs (some latter)) ≤
        xsCapacity (state.xs (some string))) :
    ∃ result,
      xsConcat state (some string) (some former) (some latter) allocation = some result ∧
        Accounted result ∧
        Touches state result string := by
  obtain ⟨cowed, copied, cow⟩ := accounted.cow string fresh
  obtain ⟨limit, bound, room, _⟩ := cow.accounted.extent string
  rw [cow.capacity] at room
  obtain ⟨formerLimit, formerBound, formerRoom, formerSize⟩ := accounted.extent former
  obtain ⟨latterLimit, latterBound, latterRoom, latterSize⟩ := accounted.extent latter
  rw [← cow.former former] at formerBound
  rw [← cow.former latter] at latterBound
  have inlineCapacity : (cowed.xs (some string)).isPtr = false →
      xsCapacity (state.xs (some string)) = 15 := by
    intro notPtr
    rw [cow.isPtr] at notPtr
    simp [xsCapacity, notPtr]
  obtain ⟨moved, readMoved, movedLength⟩ :=
    read_within bound (show 0 + xsSize (state.xs (some string)) ≤ limit by omega)
  obtain ⟨shifted, wroteString, editing₁⟩ :=
    @Editing.write _ _ _ _ _ (xsSize (state.xs (some former))) _ moved
      (Editing.refl cowed string) bound (by omega)
      (fun notPtr => Or.inl (by have := inlineCapacity notPtr; omega))
  obtain ⟨front, readFront, frontLength⟩ :=
    read_within ((editing₁.edits.extent _).trans formerBound)
      (show 0 + xsSize (state.xs (some former)) ≤ formerLimit by omega)
  obtain ⟨fronted, wroteFormer, editing₂⟩ :=
    @Editing.write _ _ _ _ _ 0 _ front editing₁ bound (by omega)
      (fun notPtr => Or.inl (by have := inlineCapacity notPtr; omega))
  obtain ⟨back, readBack, backLength⟩ :=
    read_within ((editing₂.edits.extent _).trans latterBound)
      (show 0 + (xsSize (state.xs (some latter)) + 1) ≤ latterLimit by omega)
  have clearBack : (cowed.xs (some string)).isPtr = false →
      xsSize (state.xs (some former)) + xsSize (state.xs (some string)) + back.length ≤ 15 ∨
        back.getLast? = some 0 := by
    intro notPtr
    have short := inlineCapacity notPtr
    by_cases full : xsSize (state.xs (some string)) + xsSize (state.xs (some former)) +
        xsSize (state.xs (some latter)) = 15
    · -- The suffix is another handle, and nothing was written outside of the string.
      right
      obtain ⟨_, heap⟩ := editing₂.flag notPtr
      rw [cow.isPtr] at notPtr
      obtain ⟨different, closing⟩ := clear notPtr full
      obtain rfl : cowed = state := cow.unshared 1 (refcountGet_inline notPtr) (by decide)
      rw [read_data_congr (editing₂.edits.others (some latter) (by simpa using different)) heap]
        at readBack
      exact getLast_of_read readBack backLength closing
    · left
      omega
  obtain ⟨complete, wroteLatter, editing₃⟩ :=
    @Editing.write _ _ _ _ _ (xsSize (state.xs (some former)) + xsSize (state.xs (some string)))
      _ back editing₂ bound (by omega) clearBack
  have copiedFormer :
      shifted.memcpy (xsData cowed (some string)) 0 (xsData state (some former)) 0
          (xsSize (state.xs (some former))) =
        some fronted := by
    refine State.memcpy_apart ?_ readFront wroteFormer
    intro same below _
    obtain ⟨rfl, unshared⟩ := cow.same_place accounted same
    exact apart ⟨enough, unshared, Or.inl ⟨rfl, by omega⟩⟩
  have copiedLatter :
      fronted.memcpy (xsData cowed (some string))
          (xsSize (state.xs (some former)) + xsSize (state.xs (some string)))
          (xsData state (some latter)) 0 (xsSize (state.xs (some latter)) + 1) =
        some complete := by
    refine State.memcpy_apart ?_ readBack wroteLatter
    intro same below _
    obtain ⟨rfl, unshared⟩ := cow.same_place accounted same
    exact apart ⟨enough, unshared, Or.inr ⟨rfl, by omega⟩⟩
  have fits := enough
  rw [← cow.capacity] at fits
  refine ⟨_, ?_, editing₃.setLength cow.accounted cow.spares.touches fits⟩
  simp only [xsConcat, if_pos enough, copied, Option.bind_eq_bind, Option.bind_some, readMoved,
    wroteString, copiedFormer, copiedLatter]
  rfl

/-- The path of `xs_concat` that builds the string in a new buffer. -/
private theorem concat_realloc_counts
    {string former latter : Handle}
    {allocation : Allocation}
    (accounted : Accounted state)
    (fresh : Fresh state allocation)
    (short :
      xsSize (state.xs (some string)) + xsSize (state.xs (some former)) +
        xsSize (state.xs (some latter)) < 2 ^ 32 - 1)
    (tooLong :
      ¬ xsSize (state.xs (some string)) + xsSize (state.xs (some former)) +
          xsSize (state.xs (some latter)) ≤
        xsCapacity (state.xs (some string))) :
    ∃ result,
      xsConcat state (some string) (some former) (some latter) allocation = some result ∧
        Accounted result ∧
        Touches state result string := by
  obtain ⟨stringLimit, stringBound, stringRoom, stringSize⟩ := accounted.extent string
  obtain ⟨formerLimit, formerBound, formerRoom, formerSize⟩ := accounted.extent former
  obtain ⟨latterLimit, latterBound, latterRoom, latterSize⟩ := accounted.extent latter
  have atLeast15 := accounted.capacity_ge string
  have detached : Detached state allocation.address := accounted.detached fresh.free
  generalize totalEq : xsSize (state.xs (some string)) + xsSize (state.xs (some former)) +
    xsSize (state.xs (some latter)) = total at short tooLong
  obtain ⟨atLeast, atMost, room⟩ := ilog2_spec (show 15 < total by omega) (by omega)
  obtain ⟨grown, block, grew, prepared⟩ :=
    grow_prepared fresh (show 15 < total by omega) (by omega)
  generalize ilog2 total + 1 = exponent at atLeast atMost room prepared
  obtain ⟨moved, readMoved, movedLength⟩ :=
    read_within stringBound (show 0 + xsSize (state.xs (some string)) ≤ stringLimit by omega)
  rw [← prepared.read_handle detached] at readMoved
  obtain ⟨shifted, wroteString, prepared₁⟩ :=
    @Prepared.write _ _ _ _ _ _ _ (xsSize (state.xs (some former))) moved prepared (by omega)
  obtain ⟨front, readFront, frontLength⟩ :=
    read_within formerBound (show 0 + xsSize (state.xs (some former)) ≤ formerLimit by omega)
  rw [← prepared₁.read_handle detached] at readFront
  obtain ⟨fronted, wroteFormer, prepared₂⟩ :=
    @Prepared.write _ _ _ _ _ _ _ 0 front prepared₁ (by omega)
  obtain ⟨back, readBack, backLength⟩ :=
    read_within latterBound
      (show 0 + (xsSize (state.xs (some latter)) + 1) ≤ latterLimit by omega)
  rw [← prepared₂.read_handle detached] at readBack
  obtain ⟨complete, wroteLatter, prepared₃⟩ :=
    @Prepared.write _ _ _ _ _ _ _
      (xsSize (state.xs (some former)) + xsSize (state.xs (some string))) back prepared₂
      (by omega)
  obtain ⟨freed, released, result, spares, onHeap, _⟩ :=
    prepared₃.adopt_counts accounted fresh.free atLeast atMost string
  have fits : total ≤
      xsCapacity ((freed.assign (some string) (freed.xs none)).xs (some string)) := by
    rw [State.assign_same, onHeap.xsCapacity_eq]
    omega
  refine ⟨_, ?_, (Editing.refl _ string).setLength result spares.touches fits⟩
  simp only [xsConcat, totalEq, if_neg tooLong, grew, Option.bind_eq_bind, Option.bind_some,
    prepared.xsData_eq, readMoved, wroteString, readFront, wroteFormer, readBack, wroteLatter,
    released]
  rfl

/-- `xs_concat` keeps the counts exact, whatever handles it is given. -/
theorem Accounted.concat
    {string former latter : Handle}
    {allocation : Allocation}
    (accounted : Accounted state)
    (apart : ¬ CopiesOverlap state string former latter)
    (clear : EndsClear state string former latter)
    (short :
      xsSize (state.xs (some string)) + xsSize (state.xs (some former)) +
        xsSize (state.xs (some latter)) < 2 ^ 32 - 1)
    (fresh : Fresh state allocation) :
    ∃ result,
      xsConcat state (some string) (some former) (some latter) allocation = some result ∧
        Accounted result ∧
        Touches state result string := by
  by_cases enough :
      xsSize (state.xs (some string)) + xsSize (state.xs (some former)) +
          xsSize (state.xs (some latter)) ≤
        xsCapacity (state.xs (some string))
  · exact concat_inPlace_counts accounted apart clear fresh enough
  · exact concat_realloc_counts accounted fresh short enough

/-! ## Trimming -/

/-- `xs_trim` keeps the counts exact. -/
theorem Accounted.trim
    {allocation : Allocation}
    (accounted : Accounted state)
    (handle : Handle)
    (trimset : CString)
    (kept :
      ∀ bytes,
        state.read (xsData state (some handle)) 0 (xsSize (state.xs (some handle))) = some bytes →
        bytes = [] ∨ ∃ byte ∈ bytes, byte ∉ trimset.bytes)
    (fresh : Fresh state allocation) :
    ∃ result,
      xsTrim state (some handle) trimset allocation = some result ∧
        Accounted result ∧
        Touches state result handle := by
  by_cases noSet : trimset.bytes = []
  · exact ⟨state, by rw [xsTrim, if_pos noSet], accounted, (Spares.refl state handle).touches⟩
  obtain ⟨formerLimit, formerBound, formerRoom, small⟩ := accounted.extent handle
  have narrow := accounted.capacity_lt handle
  have short : 2 ^ 32 < words := by decide
  obtain ⟨bytes, readable, length⟩ :=
    read_within formerBound
      (show 0 + xsSize (state.xs (some handle)) ≤ formerLimit by omega)
  obtain ⟨i, front, slen, inside, _⟩ := loops_trim (kept bytes readable) (show _ < words by omega)
  rw [length] at slen
  generalize (Xstring.trim trimset.bytes bytes).length = count at slen inside
  obtain ⟨cowed, copied, cow⟩ := accounted.cow handle fresh
  obtain ⟨limit, bound, room, _⟩ := cow.accounted.extent handle
  rw [cow.capacity] at room
  rw [← cow.former handle] at formerBound
  have inlineCapacity : (cowed.xs (some handle)).isPtr = false →
      xsCapacity (state.xs (some handle)) = 15 := by
    intro notPtr
    rw [cow.isPtr] at notPtr
    simp [xsCapacity, notPtr]
  obtain ⟨moved, readMoved, movedLength⟩ :=
    read_within formerBound (show i + count ≤ formerLimit by omega)
  obtain ⟨shifted, wrote, editing₁⟩ :=
    @Editing.write _ _ _ _ _ 0 _ moved (Editing.refl cowed handle) bound (by omega)
      (fun notPtr => Or.inl (by have := inlineCapacity notPtr; omega))
  obtain ⟨last, readLast, _⟩ :=
    read_within ((editing₁.edits.extent _).trans bound) (show count + 1 ≤ limit by omega)
  obtain ⟨cleared, wroteLast, editing₂⟩ :=
    @Editing.write _ _ _ _ _ count _ [0] editing₁ bound
      (by simp only [List.length_singleton]; omega) (fun _ => Or.inr rfl)
  have fits : count ≤ xsCapacity (cowed.xs (some handle)) := by
    rw [cow.capacity]
    omega
  by_cases terminated : last = [0]
  · refine ⟨_, ?_, editing₁.setLength cow.accounted cow.spares.touches fits⟩
    simp only [xsTrim, if_neg noSet, readable, Option.bind_eq_bind, Option.bind_some, front, slen,
      copied, readMoved, wrote, readLast]
    rw [if_neg (by simpa using terminated)]
    rfl
  · refine ⟨_, ?_, editing₂.setLength cow.accounted cow.spares.touches fits⟩
    simp only [xsTrim, if_neg noSet, readable, Option.bind_eq_bind, Option.bind_some, front, slen,
      copied, readMoved, wrote, readLast]
    rw [if_pos terminated, wroteLast]
    rfl

/-! ## Tokens -/

/--
`xs_tok_r` finds a NUL in the bytes of this handle: among those that copy-on-write
keeps when the buffer is shared, otherwise anywhere in the buffer.
-/
def FindsNul (state : State Handle) (handle : Handle) : Prop :=
  ∃ count,
    refcountGet state (some handle) = some count ∧
      if 1 < count then
        ∃ bytes,
          state.read (xsData state (some handle)) 0 (xsSize (state.xs (some handle)) + 1) =
              some bytes ∧
            0 ∈ bytes
      else
        ∃ slen, strlen state { place := xsData state (some handle), offset := 0 } = some slen

omit [DecidableEq Handle] in
/-- A NUL among the bytes that can be read is found by `strlen`. -/
theorem strlen_of_mem
    {p : Pointer Handle}
    {bytes : List UInt8}
    (readable : state.read p.place p.offset bytes.length = some bytes)
    (nul : 0 ∈ bytes) :
    ∃ slen, strlen state p = some slen := by
  obtain ⟨text, behind, rfl, noNul⟩ := List.eq_append_cons_of_mem nul
  refine ⟨text.length, strlen_eq ?_ noNul⟩
  have front := State.read_part readable
    (show 0 + (text.length + 1) ≤ (text ++ 0 :: behind).length by simp)
  rw [Nat.add_zero, List.drop_zero] at front
  rw [front]
  simp [List.take_append]

omit [DecidableEq Handle] in
/-- After copy-on-write the text of the handle has an end. -/
theorem Cowed.strlen
    {cowed : State Handle}
    (cow : Cowed state cowed handle)
    (finds : FindsNul state handle) :
    ∃ slen,
      Xstring.strlen cowed { place := xsData cowed (some handle), offset := 0 } = some slen := by
  obtain ⟨count, counted, nul⟩ := finds
  by_cases shared : 1 < count
  · rw [if_pos shared] at nul
    obtain ⟨bytes, readable, member⟩ := nul
    exact strlen_of_mem (cow.copied bytes readable) member
  · rw [if_neg shared] at nul
    obtain rfl := cow.unshared count counted shared
    exact nul

/--
What `xs_tok_r` with a handle does when it returns: copy-on-write, then at most one NUL
is written to the buffer that is now the handle's own.
-/
theorem Accounted.tok_cases
    {delim : CString}
    {saveptr : Pointer Handle}
    {allocation : Allocation}
    {token : Token Handle}
    (accounted : Accounted state)
    (occupied : delim.bytes ≠ [])
    (fresh : Fresh state allocation)
    (returned : xsTokR state (some handle) delim saveptr allocation = some token) :
    ∃ cowed,
      Cowed state cowed handle ∧
        Editing cowed token.state handle ∧
        (token.state = cowed ∨
          ∃ offset,
            cowed.write (xsData cowed (some handle)) offset [0] = some token.state) ∧
        ((token.token = none ∧ token.saveptr = saveptr) ∨
          (token.token ≠ none ∧ token.saveptr.place = xsData cowed (some handle))) := by
  obtain ⟨cowed, copied, cow⟩ := accounted.cow handle fresh
  simp only [xsTokR, if_neg occupied, copied, Option.bind_eq_bind, Option.bind_some] at returned
  obtain ⟨slen, found⟩ := strlen_of_tokFrom returned
  obtain ⟨_, limit, bound, below, _⟩ := strlen_spec found
  obtain ⟨text, again, readable, same, effect, saved⟩ :=
    @tokFrom_spec _ _ _ saveptr _ _ delim found
  obtain rfl := Option.some.inj (same.symm.trans returned)
  have textLength := length_of_read readable
  rcases effect with ⟨_, unchanged⟩ | ⟨position, cut, wrote⟩
  · refine ⟨cowed, cow, ?_, Or.inl unchanged, saved⟩
    rw [unchanged]
    exact Editing.refl cowed handle
  · have inside := cut.eq_scanStop.2
    obtain ⟨result, wroteNul, editing⟩ :=
      @Editing.write _ _ _ _ _ (0 + position) _ [0] (Editing.refl cowed handle) bound
        (by simp only [List.length_singleton]; omega) (fun _ => Or.inr rfl)
    obtain rfl := Option.some.inj (wroteNul.symm.trans wrote)
    exact ⟨cowed, cow, editing, Or.inr ⟨_, wrote⟩, saved⟩

/-- `xs_tok_r` with a handle keeps the counts exact whenever it returns. -/
theorem Accounted.tok
    {delim : CString}
    {saveptr : Pointer Handle}
    {allocation : Allocation}
    {token : Token Handle}
    (accounted : Accounted state)
    (fresh : Fresh state allocation)
    (returned : xsTokR state (some handle) delim saveptr allocation = some token) :
    Accounted token.state ∧ Touches state token.state handle := by
  by_cases noDelim : delim.bytes = []
  · simp only [xsTokR, if_pos noDelim] at returned
    obtain rfl := Option.some.inj returned
    exact ⟨accounted, (Spares.refl state handle).touches⟩
  · obtain ⟨cowed, cow, editing, _⟩ := accounted.tok_cases noDelim fresh returned
    exact ⟨editing.accounted cow.accounted, editing.edits.touches cow.spares.touches⟩

/-- `xs_tok_r` with a handle returns when it finds the end of the text. -/
theorem Accounted.tok_returns
    {allocation : Allocation}
    (accounted : Accounted state)
    (handle : Handle)
    (delim : CString)
    (saveptr : Pointer Handle)
    (finds : delim.bytes ≠ [] → FindsNul state handle)
    (fresh : Fresh state allocation) :
    ∃ token, xsTokR state (some handle) delim saveptr allocation = some token := by
  by_cases noDelim : delim.bytes = []
  · exact ⟨_, if_pos noDelim⟩
  · obtain ⟨cowed, copied, cow⟩ := accounted.cow handle fresh
    obtain ⟨slen, found⟩ := cow.strlen (finds noDelim)
    obtain ⟨_, token, _, returned, _⟩ := @tokFrom_spec _ _ _ saveptr _ _ delim found
    refine ⟨token, ?_⟩
    simp only [xsTokR, if_neg noDelim, copied, Option.bind_eq_bind, Option.bind_some]
    exact returned

/-! ## Growing -/

/-- A length that is too long for a handle asks for no smaller buffer. -/
theorem Backed.narrower
    {heap : Heap}
    {x : Xs}
    {exponent larger len : Nat}
    {block : Block}
    (backed : Backed heap x exponent block)
    (room : len < 2 ^ larger)
    (tooLong : ¬ len ≤ xsCapacity x) :
    exponent ≤ larger := by
  have positive := Nat.two_pow_pos exponent
  rw [backed.onHeap.xsCapacity_eq] at tooLong
  have wider : 2 ^ exponent < 2 ^ larger := by omega
  exact Nat.le_of_lt ((Nat.pow_lt_pow_iff_right (by decide)).mp wider)

/-- `xs_grow` copies the bytes of an unshared handle to a new buffer and frees the old one. -/
theorem grow_unshared_eq
    {exponent : Nat}
    {block : Block}
    {len : Nat}
    {allocation : Allocation}
    (fresh : Fresh state allocation)
    (backed : Backed state.heap (state.xs (some handle)) exponent block)
    (single : block.refcnt = 1)
    (wider : exponent ≤ ilog2 len + 1)
    (tooLong : ¬ len ≤ xsCapacity (state.xs (some handle))) :
    xsGrow state (some handle) len allocation =
      some
        (((state.setBlock allocation.address
            (some
              { refcnt := 1
                data :=
                  ByteMemory.write allocation.garbage 0
                    (ByteMemory.read block.data 0 ((state.xs (some handle)).size + 1))
                length := 2 ^ (ilog2 len + 1) + 7 })).setBlock
            (state.xs (some handle)).ptr none).assign (some handle)
          (regrown (state.xs (some handle)) allocation.address (ilog2 len + 1))) := by
  have isPtr := backed.onHeap.isPtr
  have apart := backed.ptr_ne fresh.free
  have sized := backed.sized
  have length := backed.length
  have room : 2 ^ exponent ≤ 2 ^ (ilog2 len + 1) := Nat.pow_le_pow_right (by decide) wider
  generalize bytesEq : ByteMemory.read block.data 0 ((state.xs (some handle)).size + 1) = bytes
  have created : (refcountCreate state (2 ^ (ilog2 len + 1)) allocation).read
      (.block (state.xs (some handle)).ptr) 0 ((state.xs (some handle)).size + 1) =
        some bytes := by
    simp only [State.read, refcountCreate, State.setBlock_other _ apart, backed.live, bytesEq]
    exact if_pos (by omega)
  have wrote : (refcountCreate state (2 ^ (ilog2 len + 1)) allocation).write
      (.block allocation.address) 0 bytes =
        some (state.setBlock allocation.address
          (some
            { refcnt := 1
              data := ByteMemory.write allocation.garbage 0 bytes
              length := 2 ^ (ilog2 len + 1) + 7 })) := by
    have bytesLength : bytes.length = (state.xs (some handle)).size + 1 := by
      rw [← bytesEq, length_read]
    simp only [State.write, refcountCreate, State.setBlock_same, State.setBlock_setBlock]
    exact if_pos (by omega)
  have counted : refcountGet state (some handle) = some 1 := by
    simp [refcountGet, isPtr, backed.live, single]
  have kept : (refcountCreate state (2 ^ (ilog2 len + 1)) allocation).xs = state.xs := rfl
  simp only [xsGrow, if_neg tooLong, isPtr, if_true, refcountRealloc, counted,
    Option.bind_eq_bind, Option.bind_some, ne_eq, not_true_eq_false, if_false, kept, created,
    wrote]
  rfl

/-- A handle that left its own buffer for a new one is counted there. -/
private theorem ledger_moved
    {x : Xs}
    {block filled : Block}
    {address : Nat}
    (own : (ledger state).holds handle = some (state.xs (some handle)).ptr)
    (live : state.heap (state.xs (some handle)).ptr = some block)
    (single : block.refcnt = 1)
    (apart : (state.xs (some handle)).ptr ≠ address)
    (filledSingle : filled.refcnt = 1)
    (held : x.held = some address) :
    ledger
        (((state.setBlock address (some filled)).setBlock (state.xs (some handle)).ptr none).assign
          (some handle) x) =
      ((ledger state).drop handle).create handle address := by
  have counted : (ledger state).count (state.xs (some handle)).ptr = some 1 := by
    simp [ledger, live, single]
  rw [ledger_assign, ledger_setBlock, ledger_setBlock, held]
  simp only [Ledger.drop, Ledger.create, own, counted, released, Function.update_idem,
    Option.map_some, Option.map_none, filledSingle, Nat.sub_self, if_true]
  rw [Function.update_comm apart]

/-- A handle that left its own buffer for a new one touches nothing else. -/
private theorem touches_moved
    {x : Xs}
    {filled : Block}
    {address : Nat}
    (free : state.heap address = none) :
    Touches state
      (((state.setBlock address (some filled)).setBlock (state.xs (some handle)).ptr none).assign
        (some handle) x)
      handle := by
  refine ⟨fun other different => State.assign_other _ (by simpa using different), ?_⟩
  intro used former latter formerLive latterLive
  rw [State.assign_heap] at latterLive
  by_cases atOwn : used = (state.xs (some handle)).ptr
  · rw [atOwn, State.setBlock_same] at latterLive
    simp at latterLive
  · have different : used ≠ address := by
      rintro rfl
      rw [free] at formerLive
      simp at formerLive
    rw [State.setBlock_other _ atOwn, State.setBlock_other _ different] at latterLive
    rw [Option.some.inj (formerLive.symm.trans latterLive)]

/-- `refcount_realloc` moves an unshared handle to a larger buffer. -/
private theorem grow_realloc
    {exponent : Nat}
    {block : Block}
    {len : Nat}
    {allocation : Allocation}
    (accounted : Accounted state)
    (fresh : Fresh state allocation)
    (backed : Backed state.heap (state.xs (some handle)) exponent block)
    (single : block.refcnt = 1)
    (short : len < 2 ^ 32)
    (tooLong : ¬ len ≤ xsCapacity (state.xs (some handle))) :
    ∃ result,
      xsGrow state (some handle) len allocation = some result ∧
        Accounted result ∧
        Touches state result handle := by
  have long := accounted.capacity_ge handle
  have capacity := backed.onHeap.xsCapacity_eq
  obtain ⟨atLeast, atMost, room⟩ := ilog2_spec (show 15 < len by omega) short
  have wider := backed.narrower room tooLong
  have grew := grow_unshared_eq fresh backed single wider tooLong
  generalize filledEq : Block.mk 1 _ (2 ^ (ilog2 len + 1) + 7) = filled at grew
  have filledSingle : filled.refcnt = 1 := by rw [← filledEq]
  have filledLength : filled.length = 2 ^ (ilog2 len + 1) + 7 := by rw [← filledEq]
  generalize xEq : regrown (state.xs (some handle)) allocation.address (ilog2 len + 1) = x at grew
  have grown : OnHeap x allocation.address (ilog2 len + 1) ∧
      x.size = (state.xs (some handle)).size := by
    rw [← xEq]
    exact onHeap_regrown backed.onHeap.flags fresh.fits (show ilog2 len + 1 < 2 ^ 6 by omega)
  obtain ⟨onHeap, size⟩ := grown
  have apart := backed.ptr_ne fresh.free
  have touches := @touches_moved _ _ state handle x filled _ fresh.free
  have held : x.held = some allocation.address := by
    rw [Xs.held_of_isPtr onHeap.isPtr, onHeap.ptr]
  have moved := ledger_moved (Xs.held_of_isPtr backed.onHeap.isPtr) backed.live single apart
    filledSingle held
  have backedAfter : Backed ((state.setBlock allocation.address (some filled)).setBlock
      (state.xs (some handle)).ptr none).heap x (ilog2 len + 1) filled := by
    have sized := backed.sized
    refine ⟨by rw [onHeap.ptr]; exact onHeap, atLeast, atMost, by omega, ?_, filledLength⟩
    rw [onHeap.ptr, State.setBlock_other _ apart.symm, State.setBlock_same]
  refine ⟨_, grew, accounted.moved touches fresh.free moved
    (?_ : Backed _ _ (ilog2 len + 1) filled), touches⟩
  rw [State.assign_same]
  exact backedAfter

/-- `xs_grow` of an unshared heap string keeps the counts exact. -/
theorem Accounted.grow
    {len : Nat}
    {allocation : Allocation}
    (accounted : Accounted state)
    (isPtr : (state.xs (some handle)).isPtr = true)
    (unshared : refcountGet state (some handle) = some 1)
    (short : len < 2 ^ 32 - 1)
    (fresh : Fresh state allocation) :
    ∃ result,
      xsGrow state (some handle) len allocation = some result ∧
        Accounted result ∧
        Touches state result handle := by
  by_cases enough : len ≤ xsCapacity (state.xs (some handle))
  · exact ⟨state, if_pos enough, accounted, (Spares.refl state handle).touches⟩
  · obtain ⟨exponent, block, backed⟩ := accounted.backed handle isPtr
    have single : block.refcnt = 1 := by
      simpa [refcountGet, isPtr, backed.live] using unshared
    exact grow_realloc accounted fresh backed single (by omega) enough

end Sysprog.Xstring
