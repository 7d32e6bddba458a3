import Sysprog.XsSharing

namespace Sysprog.Xstring

open ByteMemory CStrings

/-!
# The two paths of `xs_concat`

The path with a new buffer reads all three strings before it writes.  The path in place
moves the string and writes the prefix before it reads the suffix, so that a string that is
its own suffix is read where the prefix already lies.  A string that is its own prefix, or
its own suffix with no prefix before it, is copied onto itself.
-/

variable
  {Handle : Type}
  [DecidableEq Handle]
  {state : State Handle}
  {contents : Handle → List UInt8}
  {string former latter : Handle}
  {allocation : Allocation}

/-- `xs_concat` returns with the three strings of before in a row. -/
def Concatenates
    (state : State Handle)
    (contents : Handle → List UInt8)
    (string former latter : Handle)
    (allocation : Allocation) : Prop :=
  ∃ result,
    xsConcat state (some string) (some former) (some latter) allocation = some result ∧
      Holds result string (contents former ++ contents string ++ contents latter)

/-- The suffix is read where the prefix and the string were just written. -/
structure Overwrites
    (state : State Handle)
    (contents : Handle → List UInt8)
    (string former latter : Handle) : Prop where
  own : latter = string
  inPlace :
    (contents string).length + (contents former).length + (contents latter).length ≤
      xsCapacity (state.xs (some string))
  unshared : ¬ Shared state string
  moved : contents former ≠ []

/--
The bytes that lie in the place of the suffix then are its bytes, by chance.  In a short
string of 15 bytes the last of them lands in the flags.  There `xs_concat` clears its low
half, and if it makes a pointer of the string, the string is what lies at that address.
-/
def SuffixSurvives
    (state : State Handle)
    (contents : Handle → List UInt8)
    (string former : Handle) : Prop :=
  let lead := contents former ++ contents string
  let last := (lead.getD (contents string).length 0).toNat
  if (state.xs (some string)).isPtr = false ∧ lead.length + (contents string).length = 15 then
    if last / 16 % 2 = 1 then
      state.read (.block (decode (lead.take 8))) 0 16 = some (lead ++ contents string ++ [0])
    else
      lead.take (contents string).length = contents string ∧ last < 16
  else
    lead.take ((contents string).length + 1) = contents string ++ [0]

/-! ## A string that is its own suffix -/

/-- What lies in the string before its length is set. -/
structure Overwritten
    (state : State Handle)
    (contents : Handle → List UInt8)
    (string former : Handle)
    (complete : State Handle)
    (data : Memory) : Prop where
  owned :
    Owned complete contents string (xsData state (some string))
      (xsCapacity (state.xs (some string))) data
  bytes :
    ByteMemory.read data 0
        ((contents string).length + (contents former).length + (contents string).length + 1) =
      contents former ++ contents string ++
        (contents former ++ contents string).take ((contents string).length + 1)
  flags :
    (state.xs (some string)).isPtr = false →
    (contents string).length + (contents former).length + (contents string).length < 15 →
    (data 15).toNat < 16
  heap : (state.xs (some string)).isPtr = false → complete.heap = state.heap

/-- The path in place for a string that is its own suffix. -/
theorem Valid.concat_own
    (valid : Valid state contents)
    (fresh : Fresh state allocation)
    (inPlace :
      (contents string).length + (contents former).length + (contents string).length ≤
        xsCapacity (state.xs (some string)))
    (unshared : ¬ Shared state string)
    (moved : contents former ≠ [])
    (other : former ≠ string) :
    ∃ complete data,
      xsConcat state (some string) (some former) (some string) allocation =
          some
            (setLength complete (some string)
              ((contents string).length + (contents former).length +
                (contents string).length)) ∧
        Overwritten state contents string former complete data := by
  have sizeEq := (valid.strings string).xsSize_eq
  have presEq := (valid.strings former).xsSize_eq
  obtain ⟨cowed, data, copied, separated⟩ := valid.cow string fresh
  obtain rfl := cow_unshared unshared copied
  have owned := separated.owned
  have lead : 0 < (contents former).length := List.length_pos_iff.mpr moved
  generalize capacityEq : xsCapacity (cowed.xs (some string)) = capacity at inPlace owned
  have whole := owned.read (show 0 + ((contents string).length + 1) ≤ capacity + 1 by omega)
  rw [separated.bytes] at whole
  have shift := State.read_string whole
  obtain ⟨shifted, wroteString, owned₁, kept₁⟩ :=
    @Owned.write _ _ _ _ _ _ _ (contents former).length data (contents string) owned (by omega)
  have front := read_prefix valid copied separated (by omega) wroteString owned₁ kept₁
  obtain ⟨fronted, wroteFormer, owned₂, kept₂⟩ :=
    @Owned.write _ _ _ _ _ _ _ 0 _ (contents former) owned₁ (by omega)
  -- The suffix is read here, in the middle of what was written.
  have back := owned₂.read (show 0 + ((contents string).length + 1) ≤ capacity + 1 by omega)
  rw [write_front, read_write_take (by rw [List.length_append]; omega)] at back
  generalize backEq :
    (contents former ++ contents string).take ((contents string).length + 1) = suffix at back
  have suffixLength : suffix.length = (contents string).length + 1 := by
    rw [← backEq, List.length_take, List.length_append]
    omega
  obtain ⟨complete, wroteLatter, owned₃, _⟩ :=
    @Owned.write _ _ _ _ _ _ _ ((contents former).length + (contents string).length) _
      suffix owned₂ (by omega)
  have copiedFormer :
      shifted.memcpy (xsData cowed (some string)) 0 (xsData cowed (some former)) 0
          (contents former).length =
        some fronted := by
    refine State.memcpy_apart ?_ front wroteFormer
    intro same
    exact absurd (separated.same_place valid same).1 other
  -- With a prefix the suffix ends before the place that it is copied to.
  have copiedLatter :
      fronted.memcpy (xsData cowed (some string))
          ((contents former).length + (contents string).length) (xsData cowed (some string)) 0
          ((contents string).length + 1) =
        some complete := by
    refine State.memcpy_apart ?_ back wroteLatter
    omega
  rw [write_concat] at owned₃
  have total : (contents former ++ contents string ++ suffix).length =
      (contents string).length + (contents former).length + (contents string).length + 1 := by
    simp only [List.length_append, suffixLength]
    omega
  refine ⟨complete, _, ?_, ⟨by rw [capacityEq]; exact owned₃, ?_, ?_, ?_⟩⟩
  · simp only [xsConcat, sizeEq, presEq, capacityEq, if_pos inPlace, copied, Option.bind_eq_bind,
      Option.bind_some, shift, wroteString, copiedFormer, copiedLatter]
    rfl
  · rw [backEq]
    exact read_write_of_length total
  · intro notPtr short
    have place : xsData cowed (some string) = .inline (some string) := by
      simp [xsData, notPtr]
    rw [write_outside (Or.inr (by omega))]
    exact separated.flags place
  · intro notPtr
    have place : xsData cowed (some string) = .inline (some string) := by
      simp [xsData, notPtr]
    rw [place] at wroteString wroteFormer wroteLatter
    rw [(write_inline_eq wroteLatter).2, (write_inline_eq wroteFormer).2,
      (write_inline_eq wroteString).2]
    rfl

omit [DecidableEq Handle] in
/-- A handle of the right size holds a string exactly if its bytes are those of the string. -/
theorem holds_iff_bytes
    {handle : Handle}
    {text : List UInt8}
    (size : xsSize (state.xs (some handle)) = text.length) :
    Holds state handle text ↔
      state.read (xsData state (some handle)) 0 (text.length + 1) = some (text ++ [0]) :=
  ⟨Holds.bytes, fun bytes => ⟨size, bytes⟩⟩

omit [DecidableEq Handle] in
/-- The length of the three strings in a row, in the order in which `xs_concat` adds it up. -/
theorem length_joined :
    (contents former ++ contents string ++ contents latter).length =
      (contents string).length + (contents former).length + (contents latter).length := by
  simp only [List.length_append]
  omega

namespace Overwritten

variable {complete : State Handle} {data : Memory}

/-- The bytes of a short string are those of its handle. -/
theorem data_eq
    (overwritten : Overwritten state contents string former complete data)
    (notPtr : (state.xs (some string)).isPtr = false) :
    data = (complete.xs (some string)).data := by
  have place : xsData state (some string) = .inline (some string) := by
    simp [xsData, notPtr]
  rcases overwritten.owned.own with ⟨_, _, same⟩ | ⟨_, _, _, block, _⟩
  · exact same
  · rw [place] at block
    simp at block

/-- In a buffer the size is set beside the bytes. -/
theorem holds_heap
    (overwritten : Overwritten state contents string former complete data)
    (valid : Valid state contents)
    (inPlace :
      (contents string).length + (contents former).length + (contents string).length ≤
        xsCapacity (state.xs (some string)))
    (isPtr : (state.xs (some string)).isPtr = true) :
    Holds
        (setLength complete (some string)
          ((contents string).length + (contents former).length + (contents string).length))
        string (contents former ++ contents string ++ contents string) ↔
      (contents former ++ contents string).take ((contents string).length + 1) =
        contents string ++ [0] := by
  have narrow := (valid.strings string).capacity_lt
  have bytes := overwritten.bytes
  have place : xsData state (some string) = .block (state.xs (some string)).ptr := by
    simp [xsData, isPtr]
  rcases overwritten.owned.own with
    ⟨inline, _⟩ |
      ⟨address, exponent, block, _, onHeap, _, _, capacityEq, live, length, _, rfl, _⟩
  · rw [place] at inline
    simp at inline
  have positive := Nat.two_pow_pos exponent
  have total := @length_joined _ contents string former string
  rw [← total] at inPlace ⊢
  obtain ⟨resized, size⟩ := @OnHeap.setSize _ _ _ onHeap _
    (show (contents former ++ contents string ++ contents string).length < 2 ^ 54 by omega)
  rw [setLength, if_pos onHeap.isPtr, holds_iff_bytes (by
    rw [State.assign_same, resized.xsSize_eq, size])]
  rw [xsData, State.assign_same, if_pos resized.isPtr, resized.ptr]
  simp only [State.read, State.assign_heap, live]
  rw [if_pos (by omega), Option.some.injEq, total, bytes, List.append_assoc _ _ [0],
    List.append_cancel_left_eq]

/-- In a short string below 15 bytes the size is set behind the bytes. -/
theorem holds_short
    (overwritten : Overwritten state contents string former complete data)
    (notPtr : (state.xs (some string)).isPtr = false)
    (short :
      (contents string).length + (contents former).length + (contents string).length < 15) :
    Holds
        (setLength complete (some string)
          ((contents string).length + (contents former).length + (contents string).length))
        string (contents former ++ contents string ++ contents string) ↔
      (contents former ++ contents string).take ((contents string).length + 1) =
        contents string ++ [0] := by
  have bytes := overwritten.bytes
  obtain rfl := overwritten.data_eq notPtr
  have inline : Inline (complete.xs (some string)) :=
    Inline.of_lastByte (overwritten.flags notPtr short)
  have total := @length_joined _ contents string former string
  rw [← total] at short ⊢
  obtain ⟨resized, space⟩ :=
    inline.setSpaceLeft (15 - (contents former ++ contents string ++ contents string).length)
  rw [setLength, inline.not_isPtr, if_neg Bool.false_ne_true, holds_iff_bytes (by
    rw [State.assign_same, resized.xsSize_eq, space]
    omega)]
  rw [xsData, State.assign_same, resized.not_isPtr, if_neg Bool.false_ne_true]
  simp only [State.read, State.assign_same]
  rw [if_pos (by omega), Option.some.injEq, Xs.setSpaceLeft,
    read_write_disjoint (Or.inl (by omega)), total, bytes, List.append_assoc _ _ [0],
    List.append_cancel_left_eq]

/-- What a short string of 15 bytes then is: its bytes, and the one that has the flags. -/
theorem full_bytes
    (overwritten : Overwritten state contents string former complete data)
    (moved : contents former ≠ [])
    (full :
      (contents string).length + (contents former).length + (contents string).length = 15) :
    ByteMemory.read data 0 15 =
        contents former ++ contents string ++
          (contents former ++ contents string).take (contents string).length ∧
      data 15 = (contents former ++ contents string).getD (contents string).length 0 := by
  have front : 0 < (contents former).length := List.length_pos_iff.mpr moved
  have ahead : (contents string).length < (contents former ++ contents string).length := by
    rw [List.length_append]
    omega
  have ends :
      (contents former ++ contents string).take ((contents string).length + 1) =
        (contents former ++ contents string).take (contents string).length ++
          [(contents former ++ contents string).getD (contents string).length 0] := by
    rw [List.getD_eq_getElem _ _ ahead, List.take_append_getElem ahead]
  have bytes := overwritten.bytes
  rw [full, ends, ← List.append_assoc, read_add 15 1] at bytes
  have parts := List.append_inj bytes (by
    rw [length_read, List.length_append, List.length_take, List.length_append]
    omega)
  exact ⟨parts.1, List.singleton_inj.mp parts.2⟩

/-- In a short string of 15 bytes the byte behind the string decides over its kind. -/
theorem holds_full
    (overwritten : Overwritten state contents string former complete data)
    (notPtr : (state.xs (some string)).isPtr = false)
    (moved : contents former ≠ [])
    (full :
      (contents string).length + (contents former).length + (contents string).length = 15) :
    Holds
        (setLength complete (some string)
          ((contents string).length + (contents former).length + (contents string).length))
        string (contents former ++ contents string ++ contents string) ↔
      SuffixSurvives state contents string former := by
  obtain ⟨lower, lastByte⟩ := overwritten.full_bytes moved full
  obtain rfl := overwritten.data_eq notPtr
  have total : (contents former ++ contents string ++ contents string).length = 15 :=
    length_joined.trans full
  have leadLength : (contents former ++ contents string).length + (contents string).length = 15 := by
    rw [← List.length_append]
    exact total
  have front : 0 < (contents former).length := List.length_pos_iff.mpr moved
  have half : 8 ≤ (contents former ++ contents string).length := by
    rw [List.length_append]
    omega
  simp only [SuffixSurvives, notPtr, leadLength, and_self, if_true, ← lastByte]
  rw [full, setLength]
  by_cases forged : ((complete.xs (some string)).data 15).toNat / 16 % 2 = 1
  · -- The size goes into the bit-field, and the first eight bytes are the pointer.
    have isPtr : (complete.xs (some string)).isPtr = true := decide_eq_true forged
    have flagged : ((complete.xs (some string)).setSize 15).isPtr = true := by
      rw [Xs.isPtr_setSize, isPtr]
    have pointer : ((complete.xs (some string)).setSize 15).ptr =
        decode ((contents former ++ contents string).take 8) := by
      have first := @read_sub (complete.xs (some string)).data 0 15 0 8 (by omega)
      rw [lower, List.drop_zero, List.take_append_of_le_length half] at first
      rw [Xs.ptr_setSize, Xs.ptr, ← first]
    have size : xsSize ((complete.xs (some string)).setSize 15) = 15 := by
      rw [xsSize, if_pos flagged, Xs.size, Xs.word_setSize]
      omega
    rw [if_pos isPtr, if_pos forged, holds_iff_bytes (by rw [State.assign_same, size, total]),
      xsData, State.assign_same, if_pos flagged, pointer, total]
    simp only [State.read, State.assign_heap, overwritten.heap notPtr]
  · have inline : (complete.xs (some string)).isPtr = false := decide_eq_false forged
    have plain : ((complete.xs (some string)).setSpaceLeft (15 - 15)).isPtr = false := by
      rw [Xs.isPtr_setSpaceLeft, inline]
    have size : xsSize ((complete.xs (some string)).setSpaceLeft (15 - 15)) = 15 := by
      rw [xsSize, plain, if_neg Bool.false_ne_true, Xs.spaceLeft_setSpaceLeft]
    rw [inline, if_neg Bool.false_ne_true, if_neg forged,
      holds_iff_bytes (by rw [State.assign_same, size, total]), xsData, State.assign_same, plain,
      if_neg Bool.false_ne_true, total]
    simp only [State.read, State.assign_same, Xs.setSpaceLeft]
    rw [if_pos (by decide), Option.some.injEq, read_add 15 1,
      read_write_disjoint (Or.inl (by decide)), read_write_of_length List.length_singleton, lower]
    have terminator :
        UInt8.ofNat (((complete.xs (some string)).data 15).toNat / 16 * 16 + (15 - 15) % 16) = 0 ↔
          ((complete.xs (some string)).data 15).toNat < 16 := by
      have byte := ((complete.xs (some string)).data 15).toNat_lt
      rw [← UInt8.toNat_inj, UInt8.toNat_ofNat']
      simp
      omega
    rw [← terminator]
    constructor
    · intro same
      obtain ⟨body, last⟩ := List.append_inj' same rfl
      exact ⟨List.append_cancel_left body, List.singleton_inj.mp last⟩
    · rintro ⟨body, last⟩
      rw [body, last]

end Overwritten

/-! ## All calls -/

omit [DecidableEq Handle] in
/-- The prefix of a string that is overwritten as its suffix is another string. -/
theorem Overwrites.former_ne
    (overwrites : Overwrites state contents string former latter)
    (valid : Valid state contents)
    (apart : ¬ CopiesOverlap state string former latter) :
    former ≠ string := by
  rintro rfl
  have inPlace := overwrites.inPlace
  rw [← (valid.strings former).xsSize_eq, ← (valid.strings latter).xsSize_eq] at inPlace
  refine apart ⟨inPlace, overwrites.unshared, Or.inl ⟨rfl, ?_⟩⟩
  rw [(valid.strings former).xsSize_eq]
  exact List.length_pos_iff.mpr overwrites.moved

/-- Where no suffix is overwritten and no copy overlaps the strings are put in a row. -/
theorem Valid.concat_apart
    (valid : Valid state contents)
    (copies : ¬ CopiesOverlap state string former latter)
    (reads : ¬ Overwrites state contents string former latter)
    (short :
      (contents string).length + (contents former).length + (contents latter).length < 2 ^ 32)
    (fresh : Fresh state allocation) :
    ∃ result,
      xsConcat state (some string) (some former) (some latter) allocation = some result ∧
        Valid result
          (Function.update contents string
            (contents former ++ contents string ++ contents latter)) := by
  have sizeEq := (valid.strings string).xsSize_eq
  have presEq := (valid.strings former).xsSize_eq
  have sufsEq := (valid.strings latter).xsSize_eq
  have apart :
      (former = string ∧ contents string ≠ []) ∨ latter = string →
      xsSize (state.xs (some string)) + xsSize (state.xs (some former)) +
          xsSize (state.xs (some latter)) ≤
        xsCapacity (state.xs (some string)) →
      Shared state string := by
    intro itself inPlace
    by_contra unshared
    rcases itself with ⟨own, something⟩ | own
    · refine copies ⟨inPlace, unshared, Or.inl ⟨own, ?_⟩⟩
      rw [sizeEq]
      exact List.length_pos_iff.mpr something
    · by_cases moved : contents former = []
      · refine copies ⟨inPlace, unshared, Or.inr ⟨own, ?_⟩⟩
        rw [presEq]
        exact List.length_eq_zero_iff.mpr moved
      · rw [sizeEq, presEq, sufsEq] at inPlace
        exact reads ⟨own, inPlace, unshared, moved⟩
  exact valid.concat apart (by rw [sizeEq, presEq, sufsEq]; exact short) fresh

/--
`xs_concat` leaves the three strings in a row exactly if their length fits in 32 bits, no
copy overlaps and it does not overwrite its suffix, unless what it reads there happens to be
the suffix.
-/
theorem concatenates_iff
    (valid : Valid state contents)
    (string former latter : Handle)
    (fresh : Fresh state allocation) :
    Concatenates state contents string former latter allocation ↔
      (contents string).length + (contents former).length + (contents latter).length < 2 ^ 32 ∧
        ¬ CopiesOverlap state string former latter ∧
        (Overwrites state contents string former latter →
          SuffixSurvives state contents string former) := by
  have sizeEq := (valid.strings string).xsSize_eq
  have presEq := (valid.strings former).xsSize_eq
  have sufsEq := (valid.strings latter).xsSize_eq
  by_cases short :
      (contents string).length + (contents former).length + (contents latter).length < 2 ^ 32
  swap
  · simp only [short, false_and, iff_false]
    rintro ⟨result, returned, _⟩
    rw [concat_overruns valid (by rw [sizeEq, presEq, sufsEq]; omega) fresh] at returned
    simp at returned
  by_cases overlap : CopiesOverlap state string former latter
  · simp only [overlap, not_true, false_and, and_false, iff_false]
    rintro ⟨result, returned, _⟩
    rw [overlap.concat_eq_none] at returned
    cases returned
  simp only [short, overlap, not_false_eq_true, true_and]
  by_cases overwrites : Overwrites state contents string former latter
  · simp only [overwrites, true_implies]
    have other := overwrites.former_ne valid overlap
    obtain ⟨rfl, inPlace, unshared, moved⟩ := overwrites
    obtain ⟨complete, data, returned, overwritten⟩ :=
      valid.concat_own fresh inPlace unshared moved other
    have held : Concatenates state contents latter former latter allocation ↔
        Holds
          (setLength complete (some latter)
            ((contents latter).length + (contents former).length + (contents latter).length))
          latter (contents former ++ contents latter ++ contents latter) := by
      constructor
      · rintro ⟨result, returnedAgain, holds⟩
        obtain rfl := Option.some.inj (returned.symm.trans returnedAgain)
        exact holds
      · intro holds
        exact ⟨_, returned, holds⟩
    rw [held]
    cases isPtr : (state.xs (some latter)).isPtr with
    | true =>
        rw [overwritten.holds_heap valid inPlace isPtr]
        simp [SuffixSurvives, isPtr]
    | false =>
        rw [xsCapacity, isPtr, if_neg Bool.false_ne_true] at inPlace
        rcases Nat.lt_or_eq_of_le inPlace with below | full
        · have notFull :
              (contents former ++ contents latter).length + (contents latter).length ≠ 15 := by
            rw [List.length_append]
            omega
          rw [overwritten.holds_short isPtr below]
          simp only [SuffixSurvives, notFull, and_false, if_false]
        · exact overwritten.holds_full isPtr moved full
  · simp only [overwrites, false_implies, iff_true]
    obtain ⟨result, returned, after⟩ := valid.concat_apart overlap overwrites short fresh
    have holds := after.holds string
    rw [Function.update_self] at holds
    exact ⟨result, returned, holds⟩

/-- Thirty letters around and behind themselves. -/
theorem concatenates_letters :
    ∃ state contents,
      xsNew (State.initial : State Bool) (some true) letters ⟨4096, fun _ => 0⟩ = some state ∧
        contents true = letters.bytes ∧
        Concatenates state contents true true true ⟨8192, fun _ => 0⟩ := by
  have created : ∃ state,
      xsNew (State.initial : State Bool) (some true) letters ⟨4096, fun _ => 0⟩ = some state ∧
        Fresh state ⟨8192, fun _ => 0⟩ ∧
        xsCapacity (state.xs (some true)) = 31 ∧ xsSize (state.xs (some true)) = 30 :=
    ⟨_, rfl, ⟨rfl, by decide⟩, by decide, by decide⟩
  obtain ⟨state, created, fresh, capacity, size⟩ := created
  refine ⟨state, _, created, rfl,
    (concatenates_iff (valid_alone created (by decide)) true true true fresh).mpr
      ⟨by decide, ?_, ?_⟩⟩
  · intro overlap
    have inPlace := overlap.inPlace
    rw [capacity, size] at inPlace
    exact absurd inPlace (by decide)
  · intro overwrites
    have inPlace := overwrites.inPlace
    rw [capacity] at inPlace
    exact absurd inPlace (by decide)

/-- `"ab"` between `"p"` and itself: in place the suffix reads as `"pab"`. -/
theorem own_suffix_misread :
    ∃ first state contents,
      xsNew (State.initial : State Bool) (some true) ⟨[97, 98], by decide⟩
          ⟨4096, fun _ => 0⟩ = some first ∧
        xsNew first (some false) ⟨[112], by decide⟩ ⟨4096, fun _ => 0⟩ = some state ∧
        Valid state contents ∧
        contents true = [97, 98] ∧
        contents false = [112] ∧
        Fresh state ⟨8192, fun _ => 0⟩ ∧
        ¬ Concatenates state contents true false true ⟨8192, fun _ => 0⟩ := by
  have created : ∃ first state,
      xsNew (State.initial : State Bool) (some true) ⟨[97, 98], by decide⟩
          ⟨4096, fun _ => 0⟩ = some first ∧
        (first.xs (some false)).isPtr = false ∧
        Fresh first ⟨4096, fun _ => 0⟩ ∧
        xsNew first (some false) ⟨[112], by decide⟩ ⟨4096, fun _ => 0⟩ = some state ∧
        Fresh state ⟨8192, fun _ => 0⟩ ∧
        (state.xs (some true)).isPtr = false :=
    ⟨_, _, rfl, rfl, ⟨rfl, by decide⟩, rfl, ⟨rfl, by decide⟩, by decide⟩
  obtain ⟨first, state, created, unused, free, createdFormer, fresh, notPtr⟩ := created
  obtain ⟨again, createdAgain, valid⟩ :=
    (valid_alone created (by decide)).new unused ⟨[112], by decide⟩ (by decide) free
  obtain rfl := Option.some.inj (createdAgain.symm.trans createdFormer)
  refine ⟨first, again, _, created, createdFormer, valid, rfl, rfl, fresh, ?_⟩
  rintro ⟨result, returned, holds⟩
  have capacity : xsCapacity (again.xs (some true)) = 15 := by
    simp [xsCapacity, notPtr]
  have unshared : ¬ Shared again true := by
    rintro ⟨count, counted, several⟩
    simp only [refcountGet, notPtr, Bool.false_eq_true, if_false, Option.some.injEq] at counted
    omega
  obtain ⟨complete, data, returnedAgain, overwritten⟩ :=
    @Valid.concat_own _ _ _ _ true false _ valid fresh (by rw [capacity]; decide) unshared
      (by decide) (by decide)
  obtain rfl := Option.some.inj (returnedAgain.symm.trans returned)
  exact absurd ((overwritten.holds_short notPtr (by decide)).mp holds) (by decide)

end Sysprog.Xstring
