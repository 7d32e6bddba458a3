import Mathlib.Data.List.GetD
import Mathlib.Data.Nat.Bitwise
import Sysprog.XsOperations

namespace Sysprog.Xstring

open ByteMemory CStrings Execution MachineWord

/-!
# Strings follow the operations

Concatenation and trimming, and what whole programs of calls do to the strings of all
handles.
-/

variable
  {Handle : Type}
  [DecidableEq Handle]
  {state : State Handle}
  {contents : Handle → List UInt8}
  {handle : Handle}

omit [DecidableEq Handle] in
/-- Part of a block that can be read can be read. -/
theorem State.read_part
    {place : Place Handle}
    {bytes : List UInt8}
    {base offset length total : Nat}
    (readable : state.read place base total = some bytes)
    (inside : offset + length ≤ total) :
    state.read place (base + offset) length = some ((bytes.drop offset).take length) := by
  cases place with
  | inline slot =>
      simp only [State.read] at readable ⊢
      split at readable
      · obtain rfl := Option.some.inj readable
        rw [if_pos (by omega), ← ByteMemory.read_sub inside]
      · simp at readable
  | block address =>
      simp only [State.read] at readable ⊢
      split at readable
      · simp at readable
      · split at readable
        · obtain rfl := Option.some.inj readable
          rename_i live _
          rw [if_pos (by omega), ← ByteMemory.read_sub inside]
        · simp at readable

omit [DecidableEq Handle] in
/-- The same for a block read from the start. -/
theorem State.read_sub
    {place : Place Handle}
    {bytes : List UInt8}
    {offset length total : Nat}
    (readable : state.read place 0 total = some bytes)
    (inside : offset + length ≤ total) :
    state.read place offset length = some ((bytes.drop offset).take length) := by
  have part := State.read_part readable inside
  rw [Nat.zero_add] at part
  exact part

omit [DecidableEq Handle] in
/-- The bytes of a string without its terminator. -/
theorem State.read_string
    {place : Place Handle}
    {string : List UInt8}
    (readable : state.read place 0 (string.length + 1) = some (string ++ [0])) :
    state.read place 0 string.length = some string := by
  have part := State.read_sub readable (show 0 + string.length ≤ string.length + 1 by omega)
  simpa using part

section Copies

variable
  {result : State Handle}
  {dest src : Place Handle}
  {destOffset srcOffset n : Nat}
  {bytes : List UInt8}

/-- Between ranges that share no byte `memcpy` writes what it reads. -/
theorem State.memcpy_apart
    (apart : dest = src → destOffset < srcOffset + n → ¬ srcOffset < destOffset + n)
    (readable : state.read src srcOffset n = some bytes)
    (wrote : state.write dest destOffset bytes = some result) :
    state.memcpy dest destOffset src srcOffset n = some result := by
  rw [State.memcpy, if_neg fun overlap => apart overlap.1 overlap.2.1 overlap.2.2, readable]
  exact wrote

/-- Between ranges that share one it does not return. -/
theorem State.memcpy_overlap
    (below : destOffset < srcOffset + n)
    (above : srcOffset < destOffset + n) :
    state.memcpy src destOffset src srcOffset n = none := by
  rw [State.memcpy, if_pos ⟨rfl, below, above⟩]

end Copies

/-! ## Concatenation -/

/-- The first two writes of `xs_concat` put the prefix before the string. -/
theorem write_front
    {memory : Memory}
    (former string : List UInt8) :
    ByteMemory.write (ByteMemory.write memory former.length string) 0 former =
      ByteMemory.write memory 0 (former ++ string) := by
  rw [write_comm (Or.inr (by omega)), write_append, Nat.zero_add]

/-- The three writes of `xs_concat` lay out the whole string. -/
theorem write_concat
    {memory : Memory}
    (former string latter : List UInt8) :
    ByteMemory.write
        (ByteMemory.write (ByteMemory.write memory former.length string) 0 former)
        (former.length + string.length) latter =
      ByteMemory.write memory 0 (former ++ string ++ latter) := by
  rw [write_front, write_append (former ++ string) latter, Nat.zero_add, List.length_append]

/-- The data of another handle is untouched while a handle edits its own. -/
theorem Owned.read_other
    {result : State Handle}
    {place : Place Handle}
    {capacity : Nat}
    {data : Memory}
    {other : Handle}
    (owned : Owned result contents handle place capacity data)
    (different : other ≠ handle)
    (same : result.xs (some other) = state.xs (some other)) :
    result.read (xsData state (some other)) 0 ((contents other).length + 1) =
      some (contents other ++ [0]) := by
  have stores := owned.others.strings other
  rw [Function.update_of_ne different,
    State.assign_other _ (by simpa using different), State.assign_heap] at stores
  have readable := stores.read_xsData
  rw [xsData, same] at readable
  exact readable

/-- A terminated string written over owned bytes in place keeps the flags clear. -/
theorem Owned.flags_write
    {place : Place Handle}
    {capacity : Nat}
    {data : Memory}
    {string : List UInt8}
    (owned : Owned state contents handle place capacity data)
    (flags : place = .inline (some handle) → (data 15).toNat < 16)
    (fits : string.length ≤ capacity)
    (inline : place = .inline (some handle)) :
    (ByteMemory.write data 0 (string ++ [0]) 15).toNat < 16 := by
  rcases owned.own with ⟨_, rfl, _⟩ | ⟨_, _, _, block, _⟩
  · have clear : Inline { data := data } := Inline.of_lastByte (flags inline)
    exact (clear.write_string fits).lastByte_lt
  · rw [block] at inline
    simp at inline

section Writes

variable
  {result : State Handle}
  {place other : Place Handle}
  {offset start length : Nat}
  {bytes : List UInt8}

/-- What a write to a handle does. -/
theorem write_inline_eq
    {slot : Option Handle}
    (wrote : state.write (.inline slot) offset bytes = some result) :
    offset + bytes.length ≤ 16 ∧
      result =
        state.assign slot { data := ByteMemory.write (state.xs slot).data offset bytes } := by
  simp only [State.write] at wrote
  split at wrote
  · exact ⟨by assumption, (Option.some.inj wrote).symm⟩
  · simp at wrote

/-- What a write to a buffer does. -/
theorem write_block_eq
    {address : Nat}
    (wrote : state.write (.block address) offset bytes = some result) :
    ∃ block : Block,
      state.heap address = some block ∧
        offset + bytes.length ≤ block.length ∧
        result =
          state.setBlock address
            (some { block with data := ByteMemory.write block.data offset bytes }) := by
  simp only [State.write] at wrote
  split at wrote
  · simp at wrote
  · rename_i block live
    split at wrote
    · exact ⟨block, live, by assumption, (Option.some.inj wrote).symm⟩
    · simp at wrote

/-- What is written at one place is not seen at another one. -/
theorem State.read_of_write
    (wrote : state.write place offset bytes = some result)
    (apart : other ≠ place) :
    result.read other start length = state.read other start length := by
  cases place with
  | inline slot =>
      obtain ⟨_, rfl⟩ := write_inline_eq wrote
      cases other with
      | inline different =>
          have different : different ≠ slot := fun same => apart (by rw [same])
          simp only [State.read, State.assign_other _ different]
      | block address => rfl
  | block address =>
      obtain ⟨_, _, _, rfl⟩ := write_block_eq wrote
      cases other with
      | inline slot => rfl
      | block different =>
          have different : different ≠ address := fun same => apart (by rw [same])
          simp only [State.read, State.setBlock_other _ different]

/-- A write that succeeds is within bounds, and moves none. -/
theorem extent_of_write (wrote : state.write place offset bytes = some result) :
    (∃ limit, state.extent place = some limit ∧ offset + bytes.length ≤ limit) ∧
      ∀ other, result.extent other = state.extent other := by
  cases place with
  | inline slot =>
      obtain ⟨inside, rfl⟩ := write_inline_eq wrote
      refine ⟨⟨16, rfl, inside⟩, ?_⟩
      intro other
      cases other <;> rfl
  | block address =>
      obtain ⟨block, live, inside, rfl⟩ := write_block_eq wrote
      refine ⟨⟨block.length, by simp [State.extent, live], inside⟩, ?_⟩
      intro other
      cases other with
      | inline slot => rfl
      | block different =>
          by_cases same : different = address
          · simp [State.extent, same, live]
          · simp [State.extent, State.setBlock_other _ same]

end Writes

section Sharing

variable {cowed : State Handle} {data : Memory} {allocation : Allocation}

/-- A handle shares its buffer. -/
def Shared (state : State Handle) (handle : Handle) : Prop :=
  ∃ count, refcountGet state (some handle) = some count ∧ 1 < count

/--
A `memcpy` of `xs_concat` is given ranges that share a byte.  The string is edited in place,
in a buffer of its own, and is its own prefix, or its own suffix with no prefix before it.
-/
structure CopiesOverlap (state : State Handle) (string former latter : Handle) : Prop where
  inPlace :
    xsSize (state.xs (some string)) + xsSize (state.xs (some former)) +
        xsSize (state.xs (some latter)) ≤
      xsCapacity (state.xs (some string))
  unshared : ¬ Shared state string
  itself :
    (former = string ∧ 0 < xsSize (state.xs (some string))) ∨
      (latter = string ∧ xsSize (state.xs (some former)) = 0)

/-- Without sharing `xs_cow` does nothing. -/
theorem cow_unshared
    (unshared : ¬ Shared state handle)
    (copied : xsCow state (some handle) allocation = some cowed) :
    cowed = state := by
  simp only [xsCow, Option.bind_eq_bind, Option.bind_eq_some_iff] at copied
  obtain ⟨count, counted, copied⟩ := copied
  rw [if_neg fun shared => unshared ⟨count, counted, shared⟩] at copied
  exact (Option.some.inj copied).symm

omit [DecidableEq Handle] in
/-- A shared buffer has another handle. -/
theorem Valid.exists_sharer
    (valid : Valid state contents)
    (shared : Shared state handle) :
    (state.xs (some handle)).isPtr = true ∧
      ∃ other, other ≠ handle ∧ Refers state other (state.xs (some handle)).ptr := by
  obtain ⟨count, counted, several⟩ := shared
  cases isPtr : (state.xs (some handle)).isPtr with
  | false =>
      simp only [refcountGet, isPtr, Bool.false_eq_true, if_false, Option.some.injEq] at counted
      omega
  | true =>
      obtain ⟨block, owners, live, members, card⟩ := valid.counts handle _ ⟨isPtr, rfl⟩
      simp only [refcountGet, isPtr, if_true, live, Option.map_some, Option.some.injEq] at counted
      have two : 1 < owners.card := by omega
      obtain ⟨other, owns, different⟩ := Finset.exists_mem_ne two handle
      exact ⟨rfl, other, different, (members other).mp owns⟩

/-- The copy of a shared buffer is elsewhere. -/
theorem Separated.place_ne
    (separated : Separated state contents handle cowed data)
    (valid : Valid state contents)
    (shared : Shared state handle) :
    xsData state (some handle) ≠ xsData cowed (some handle) := by
  obtain ⟨isPtr, other, different, otherPtr, samePtr⟩ := valid.exists_sharer shared
  rw [xsData, if_pos isPtr]
  rcases separated.owned.own with
    ⟨place, _⟩ | ⟨address, _, _, place, _, _, _, _, _, _, _, _, alone⟩
  · rw [place]
    simp
  · rw [place]
    intro same
    have sameAddress : (state.xs (some handle)).ptr = address := by simpa using same
    refine alone other different ?_
    rw [Refers, separated.others other different]
    exact ⟨otherPtr, samePtr.trans sameAddress⟩

/-- The data of the other handles is elsewhere too. -/
theorem Separated.other_place_ne
    {other : Handle}
    (separated : Separated state contents handle cowed data)
    (different : other ≠ handle) :
    xsData state (some other) ≠ xsData cowed (some handle) := by
  rcases separated.owned.own with
    ⟨place, _⟩ | ⟨address, _, _, place, _, _, _, _, _, _, _, _, alone⟩
  · rw [place, xsData]
    split
    · simp
    · simpa using different
  · rw [place, xsData]
    split
    next isPtr =>
      intro same
      refine alone other different ?_
      rw [Refers, separated.others other different]
      exact ⟨isPtr, by simpa using same⟩
    next => simp

/-- Only a string that shares nothing is read where it is edited. -/
theorem Separated.same_place
    {other : Handle}
    (separated : Separated state contents handle cowed data)
    (valid : Valid state contents)
    (same : xsData cowed (some handle) = xsData state (some other)) :
    other = handle ∧ ¬ Shared state handle := by
  have own : other = handle := by
    by_contra different
    exact separated.other_place_ne different same.symm
  subst own
  exact ⟨rfl, fun shared => separated.place_ne valid shared same.symm⟩

/-- Copies that overlap do not return. -/
theorem CopiesOverlap.concat_eq_none
    {string former latter : Handle}
    (overlap : CopiesOverlap state string former latter) :
    xsConcat state (some string) (some former) (some latter) allocation = none := by
  rw [Option.eq_none_iff_forall_ne_some]
  intro result returned
  simp only [xsConcat, if_pos overlap.inPlace, Option.bind_eq_bind,
    Option.bind_eq_some_iff] at returned
  obtain ⟨cowed, copied, moved, _, shifted, _, fronted, wroteFormer, complete, wroteLatter, _⟩ :=
    returned
  obtain rfl := cow_unshared overlap.unshared copied
  rcases overlap.itself with ⟨rfl, something⟩ | ⟨rfl, nothing⟩
  · rw [State.memcpy_overlap (by omega) (by omega)] at wroteFormer
    cases wroteFormer
  · rw [State.memcpy_overlap (by omega) (by omega)] at wroteLatter
    cases wroteLatter

end Sharing

section InPlace

variable
  {cowed shifted fronted : State Handle}
  {string former latter : Handle}
  {data : Memory}
  {allocation : Allocation}
  {capacity : Nat}

/-- The prefix can be read when the string was shifted, also if it is the string itself. -/
theorem read_prefix
    (valid : Valid state contents)
    (copied : xsCow state (some string) allocation = some cowed)
    (separated : Separated state contents string cowed data)
    (fits : (contents former).length ≤ capacity)
    (wrote :
      cowed.write (xsData cowed (some string)) (contents former).length (contents string) =
        some shifted)
    (owned :
      Owned shifted contents string (xsData cowed (some string)) capacity
        (ByteMemory.write data (contents former).length (contents string)))
    (kept : ∀ slot, slot ≠ some string → shifted.xs slot = cowed.xs slot) :
    shifted.read (xsData state (some former)) 0 (contents former).length =
      some (contents former) := by
  by_cases own : former = string
  · subst own
    by_cases shared : Shared state former
    · rw [State.read_of_write wrote (separated.place_ne valid shared)]
      exact State.read_string separated.former
    · obtain rfl := cow_unshared shared copied
      have bytes := separated.bytes
      rw [read_add] at bytes
      rw [owned.read (by omega), read_write_disjoint (Or.inl (by omega)),
        (List.append_inj bytes length_read).1]
  · exact State.read_string (owned.read_other own
      ((kept _ (by simpa using own)).trans (separated.others former own)))

/--
The suffix can be read when the string was shifted and has its prefix.  If it is the
string itself, it must have shared its buffer.
-/
private theorem read_suffix
    (valid : Valid state contents)
    (copied : xsCow state (some string) allocation = some cowed)
    (separated : Separated state contents string cowed data)
    (apart : latter = string → Shared state string)
    (wroteString :
      cowed.write (xsData cowed (some string)) (contents former).length (contents string) =
        some shifted)
    (wroteFormer :
      shifted.write (xsData cowed (some string)) 0 (contents former) = some fronted)
    (owned :
      Owned fronted contents string (xsData cowed (some string)) capacity
        (ByteMemory.write (ByteMemory.write data (contents former).length (contents string)) 0
          (contents former)))
    (kept : ∀ slot, slot ≠ some string → fronted.xs slot = cowed.xs slot) :
    fronted.read (xsData state (some latter)) 0 ((contents latter).length + 1) =
      some (contents latter ++ [0]) := by
  by_cases own : latter = string
  · subst own
    have different := separated.place_ne valid (apart rfl)
    rw [State.read_of_write wroteFormer different, State.read_of_write wroteString different]
    exact separated.former
  · exact owned.read_other own
      ((kept _ (by simpa using own)).trans (separated.others latter own))

end InPlace

/-- The path of `xs_concat` that edits the string in place. -/
private theorem concat_inPlace
    {string former latter : Handle}
    {allocation : Allocation}
    (valid : Valid state contents)
    (apart : (former = string ∧ contents string ≠ []) ∨ latter = string → Shared state string)
    (fresh : Fresh state allocation)
    (enough :
      xsSize (state.xs (some string)) + xsSize (state.xs (some former)) +
          xsSize (state.xs (some latter)) ≤
        xsCapacity (state.xs (some string))) :
    ∃ result,
      xsConcat state (some string) (some former) (some latter) allocation = some result ∧
        Valid result
          (Function.update contents string
            (contents former ++ contents string ++ contents latter)) := by
  have sizeEq := (valid.strings string).xsSize_eq
  have presEq := (valid.strings former).xsSize_eq
  have sufsEq := (valid.strings latter).xsSize_eq
  obtain ⟨cowed, data, copied, separated⟩ := valid.cow string fresh
  have owned := separated.owned
  have fits := enough
  rw [sizeEq, presEq, sufsEq] at fits
  generalize capacityEq : xsCapacity (state.xs (some string)) = capacity at fits owned
  have whole := owned.read (show 0 + ((contents string).length + 1) ≤ capacity + 1 by omega)
  rw [separated.bytes] at whole
  have moved := State.read_string whole
  obtain ⟨shifted, wroteString, owned₁, kept₁⟩ :=
    @Owned.write _ _ _ _ _ _ _ (contents former).length data (contents string) owned (by omega)
  have front := read_prefix valid copied separated (by omega) wroteString owned₁ kept₁
  obtain ⟨fronted, wroteFormer, owned₂, kept₂⟩ :=
    @Owned.write _ _ _ _ _ _ _ 0 _ (contents former) owned₁ (by omega)
  have back := read_suffix valid copied separated (fun own => apart (Or.inr own)) wroteString
    wroteFormer owned₂ fun slot different => (kept₂ slot different).trans (kept₁ slot different)
  obtain ⟨complete, wroteLatter, owned₃, _⟩ :=
    @Owned.write _ _ _ _ _ _ _ ((contents former).length + (contents string).length) _
      (contents latter ++ [0]) owned₂ (by simp; omega)
  have copiedFormer :
      shifted.memcpy (xsData cowed (some string)) 0 (xsData state (some former)) 0
          (contents former).length =
        some fronted := by
    refine State.memcpy_apart ?_ front wroteFormer
    intro same below _
    obtain ⟨rfl, unshared⟩ := separated.same_place valid same
    exact unshared (apart (Or.inl ⟨rfl, List.length_pos_iff.mp (by omega)⟩))
  have copiedLatter :
      fronted.memcpy (xsData cowed (some string))
          ((contents former).length + (contents string).length) (xsData state (some latter)) 0
          ((contents latter).length + 1) =
        some complete := by
    refine State.memcpy_apart ?_ back wroteLatter
    intro same _ _
    obtain ⟨own, unshared⟩ := separated.same_place valid same
    exact unshared (apart (Or.inr own))
  rw [write_concat, ← List.append_assoc] at owned₃
  have total : (contents former ++ contents string ++ contents latter).length =
      (contents string).length + (contents former).length + (contents latter).length := by
    simp only [List.length_append]
    omega
  refine ⟨_, ?_, owned₃.finish (by omega) (owned.flags_write separated.flags (by omega))
    (read_write_of_length List.length_append)⟩
  simp only [xsConcat, sizeEq, presEq, sufsEq, capacityEq, if_pos fits, copied,
    Option.bind_eq_bind, Option.bind_some, moved, wroteString, copiedFormer, copiedLatter, total]
  rfl

/-- The path of `xs_concat` that builds the string in a new buffer. -/
private theorem concat_realloc
    {string former latter : Handle}
    {allocation : Allocation}
    (valid : Valid state contents)
    (fresh : Fresh state allocation)
    (narrow :
      (contents string).length + (contents former).length + (contents latter).length < 2 ^ 32)
    (tooLong :
      ¬ (contents string).length + (contents former).length + (contents latter).length ≤
        xsCapacity (state.xs (some string))) :
    ∃ result,
      xsConcat state (some string) (some former) (some latter) allocation = some result ∧
        Valid result
          (Function.update contents string
            (contents former ++ contents string ++ contents latter)) := by
  have sizeEq := (valid.strings string).xsSize_eq
  have presEq := (valid.strings former).xsSize_eq
  have sufsEq := (valid.strings latter).xsSize_eq
  have detached := valid.detached_of_free fresh.free
  have atLeast15 : 15 ≤ xsCapacity (state.xs (some string)) :=
    (valid.strings string).capacity_ge
  generalize totalEq :
    (contents string).length + (contents former).length + (contents latter).length = total
    at narrow tooLong
  have long : 15 < total := by omega
  obtain ⟨atLeast, atMost, room⟩ := ilog2_spec long narrow
  obtain ⟨grown, block, grew, prepared⟩ := grow_prepared fresh long narrow
  generalize ilog2 total + 1 = exponent at atLeast atMost room prepared
  have moved := State.read_string (valid.strings string).read_xsData
  rw [← prepared.read_handle detached] at moved
  obtain ⟨shifted, wroteString, prepared₁⟩ :=
    @Prepared.write _ _ _ _ _ _ _ (contents former).length (contents string) prepared (by omega)
  have front := State.read_string (valid.strings former).read_xsData
  rw [← prepared₁.read_handle detached] at front
  obtain ⟨fronted, wroteFormer, prepared₂⟩ :=
    @Prepared.write _ _ _ _ _ _ _ 0 (contents former) prepared₁ (by omega)
  have back := (valid.strings latter).read_xsData
  rw [← prepared₂.read_handle detached] at back
  obtain ⟨complete, wroteLatter, prepared₃⟩ :=
    @Prepared.write _ _ _ _ _ _ _ ((contents former).length + (contents string).length)
      (contents latter ++ [0]) prepared₂ (by simp; omega)
  simp only [write_concat] at prepared₃
  rw [← List.append_assoc] at prepared₃
  obtain ⟨freed, released, _, owned, _⟩ :=
    prepared₃.adopt valid detached atLeast atMost string
  simp only at owned
  have length : (contents former ++ contents string ++ contents latter).length = total := by
    simp only [List.length_append]
    omega
  refine ⟨_, ?_, owned.finish (by omega) (by simp) (read_write_of_length List.length_append)⟩
  simp only [xsConcat, sizeEq, presEq, sufsEq, totalEq, if_neg tooLong, grew,
    Option.bind_eq_bind, Option.bind_some, prepared.xsData_eq, moved, wroteString, front,
    wroteFormer, back, wroteLatter, released, length]
  rfl

/--
`xs_concat` puts two strings around a third one, and the three may be one.  Only a string
that is its own prefix or suffix must not be edited where these are read.
-/
theorem Valid.concat
    {string former latter : Handle}
    {allocation : Allocation}
    (valid : Valid state contents)
    (apart :
      (former = string ∧ contents string ≠ []) ∨ latter = string →
      xsSize (state.xs (some string)) + xsSize (state.xs (some former)) +
          xsSize (state.xs (some latter)) ≤
        xsCapacity (state.xs (some string)) →
      Shared state string)
    (short :
      xsSize (state.xs (some string)) + xsSize (state.xs (some former)) +
        xsSize (state.xs (some latter)) < 2 ^ 32)
    (fresh : Fresh state allocation) :
    ∃ result,
      xsConcat state (some string) (some former) (some latter) allocation = some result ∧
        Valid result
          (Function.update contents string
            (contents former ++ contents string ++ contents latter)) := by
  have sizeEq := (valid.strings string).xsSize_eq
  have presEq := (valid.strings former).xsSize_eq
  have sufsEq := (valid.strings latter).xsSize_eq
  by_cases enough :
      xsSize (state.xs (some string)) + xsSize (state.xs (some former)) +
          xsSize (state.xs (some latter)) ≤
        xsCapacity (state.xs (some string))
  · exact concat_inPlace valid (fun own => apart own enough) fresh enough
  · rw [sizeEq, presEq, sufsEq] at enough short
    exact concat_realloc valid fresh short enough

/-! ## Trimming -/

/-- `check_bit` tests one bit of the mask. -/
private theorem checkBit_eq (mask : Nat → Nat) (byte : UInt8) :
    checkBit mask byte = (mask (byte.toNat / 8)).testBit (byte.toNat % 8) := by
  rw [checkBit, Nat.one_shiftLeft, Nat.and_two_pow]
  cases (mask (byte.toNat / 8)).testBit (byte.toNat % 8) <;> simp

/-- `set_bit` adds one byte to the set. -/
private theorem checkBit_setBit (mask : Nat → Nat) (added byte : UInt8) :
    checkBit (setBit mask added) byte = (decide (byte = added) || checkBit mask byte) := by
  rw [checkBit_eq, checkBit_eq, setBit]
  by_cases sameWord : byte.toNat / 8 = added.toNat / 8
  · rw [sameWord, Function.update_self, Nat.testBit_or, Nat.one_shiftLeft, Nat.testBit_two_pow,
      Bool.or_comm]
    congr 1
    rw [decide_eq_decide]
    constructor
    · intro sameBit
      apply UInt8.toNat_inj.mp
      omega
    · rintro rfl
      rfl
  · have different : byte ≠ added := by
      rintro rfl
      exact sameWord rfl
    rw [Function.update_of_ne sameWord]
    simp [different]

/-- The mask of `xs_trim` holds the bytes of the set. -/
theorem checkBit_mask (trimset : List UInt8) (byte : UInt8) :
    checkBit (trimset.foldl setBit fun _ => 0) byte = decide (byte ∈ trimset) := by
  have general : ∀ mask,
      checkBit (trimset.foldl setBit mask) byte =
        (decide (byte ∈ trimset) || checkBit mask byte) := by
    induction trimset with
    | nil =>
        intro mask
        simp
    | cons first rest inductionHypothesis =>
        intro mask
        rw [List.foldl_cons, inductionHypothesis, checkBit_setBit, ← Bool.or_assoc]
        congr 1
        simp [Bool.or_comm]
  rw [general, checkBit_eq]
  simp

/-- The front loop counts the leading bytes of the set. -/
theorem skipFront_eq (mask : Nat → Nat) (string : List UInt8) :
    skipFront mask string = (string.takeWhile (checkBit mask)).length := by
  induction string with
  | nil =>
      rfl
  | cons byte rest inductionHypothesis =>
      by_cases inSet : checkBit mask byte
      · simp [skipFront, inSet, inductionHypothesis]
      · simp [skipFront, inSet]

/-- The back loop finds the length without the trailing bytes of the set. -/
theorem skipBack_eq
    (mask : Nat → Nat)
    (string : List UInt8)
    {slen : Nat}
    (inside : slen ≤ string.length) :
    skipBack mask string slen = ((string.take slen).rdropWhile (checkBit mask)).length := by
  induction slen with
  | zero =>
      simp [skipBack]
  | succ slen inductionHypothesis =>
      have below : slen < string.length := inside
      rw [skipBack, List.take_succ_eq_append_getElem below, List.getD_eq_getElem string 0 below,
        List.rdropWhile_concat]
      by_cases inSet : checkBit mask string[slen]
      · simp only [inSet, if_true]
        exact inductionHypothesis (by omega)
      · simp only [inSet, Bool.false_eq_true, if_false, List.length_append, List.length_take,
          List.length_cons, List.length_nil]
        omega

/-- Dropping from the end stops at the last byte to keep. -/
private theorem rdropWhile_append
    {drops : UInt8 → Bool}
    (first : List UInt8)
    {second : List UInt8}
    (kept : ∃ byte ∈ second, drops byte = false) :
    (first ++ second).rdropWhile drops = first ++ second.rdropWhile drops := by
  have nonempty : ¬ (second.reverse.dropWhile drops).isEmpty := by
    obtain ⟨byte, member, keeps⟩ := kept
    rw [List.isEmpty_iff, List.dropWhile_eq_nil_iff]
    intro all
    rw [all byte (List.mem_reverse.mpr member)] at keeps
    simp at keeps
  simp only [List.rdropWhile, List.reverse_append, List.dropWhile_append]
  rw [if_neg nonempty, List.reverse_append, List.reverse_reverse]

/-- The bytes between the two scans are the trimmed string. -/
theorem scans_trim
    {drops : UInt8 → Bool}
    {string : List UInt8}
    (kept : string = [] ∨ ∃ byte ∈ string, drops byte = false) :
    (string.takeWhile drops).length ≤ (string.rdropWhile drops).length ∧
      (string.rdropWhile drops).length ≤ string.length ∧
      (string.drop (string.takeWhile drops).length).take
          ((string.rdropWhile drops).length - (string.takeWhile drops).length) =
        (string.dropWhile drops).rdropWhile drops := by
  rcases kept with rfl | keeps
  · simp
  have keepsBehind : ∃ byte ∈ string.dropWhile drops, drops byte = false := by
    obtain ⟨byte, member, keeps⟩ := keeps
    rw [← List.takeWhile_append_dropWhile (p := drops) (l := string), List.mem_append] at member
    rcases member with leading | behind
    · rw [List.mem_takeWhile_imp leading] at keeps
      simp at keeps
    · exact ⟨byte, behind, keeps⟩
  have split : string.rdropWhile drops =
      string.takeWhile drops ++ (string.dropWhile drops).rdropWhile drops := by
    rw [← rdropWhile_append _ keepsBehind, List.takeWhile_append_dropWhile]
  have behind : string.drop (string.takeWhile drops).length = string.dropWhile drops := by
    conv_lhs =>
      arg 2
      rw [← List.takeWhile_append_dropWhile (p := drops) (l := string)]
    exact List.drop_left
  refine ⟨by rw [split]; simp, (List.rdropWhile_prefix drops string).length_le, ?_⟩
  rw [behind, split, List.length_append, Nat.add_sub_cancel_left]
  exact (List.prefix_iff_eq_take.mp (List.rdropWhile_prefix drops _)).symm

/-- The two loops of `xs_trim` find where the trimmed string starts and how long it is. -/
theorem loops_trim
    {trimset string : List UInt8}
    (kept : string = [] ∨ ∃ byte ∈ string, byte ∉ trimset)
    (short : string.length < words) :
    ∃ i,
      skipFront (trimset.foldl setBit fun _ => 0) string = i ∧
        sub (skipBack (trimset.foldl setBit fun _ => 0) string string.length) i =
          (trim trimset string).length ∧
        i + (trim trimset string).length ≤ string.length ∧
        (string.drop i).take (trim trimset string).length = trim trimset string := by
  have inSet : checkBit (trimset.foldl setBit fun _ => 0) = fun byte => decide (byte ∈ trimset) :=
    funext (checkBit_mask trimset)
  obtain ⟨ordered, shorter, between⟩ :=
    @scans_trim (fun byte => decide (byte ∈ trimset)) string (by simpa using kept)
  refine ⟨_, rfl, ?_⟩
  rw [skipFront_eq, skipBack_eq _ _ (Nat.le_refl _), List.take_length, inSet,
    sub_of_le (by omega) ordered]
  have length : (trim trimset string).length = _ := congrArg List.length between.symm
  rw [List.length_take, List.length_drop] at length
  have exact' : (string.rdropWhile fun byte => decide (byte ∈ trimset)).length -
      (string.takeWhile fun byte => decide (byte ∈ trimset)).length =
      (trim trimset string).length := by
    omega
  rw [exact'] at between ⊢
  exact ⟨rfl, by omega, between⟩

/-- Writing a terminator over one changes nothing. -/
private theorem write_terminator
    {memory : Memory}
    {address : Nat}
    (terminated : ByteMemory.read memory address 1 = [0]) :
    ByteMemory.write memory address [0] = memory := by
  funext cell
  by_cases same : cell = address
  · subst same
    have byte : memory cell = 0 := by
      simpa [ByteMemory.read] using terminated
    rw [byte]
    simpa using @write_inside memory cell [0] 0 (by simp)
  · exact write_outside (by simp; omega)

/-- The last step of `xs_trim` leaves a terminator behind the kept bytes. -/
private theorem Owned.terminate
    {place : Place Handle}
    {capacity offset : Nat}
    {data : Memory}
    (owned : Owned state contents handle place capacity data)
    (inside : offset + 1 ≤ capacity + 1) :
    ∃ last result,
      state.read place offset 1 = some last ∧
        (if last ≠ [0] then state.write place offset [0] else some state) = some result ∧
        Owned result contents handle place capacity (ByteMemory.write data offset [0]) := by
  refine ⟨ByteMemory.read data offset 1, ?_⟩
  by_cases terminated : ByteMemory.read data offset 1 = [0]
  · refine ⟨state, owned.read inside, if_neg (by simpa using terminated), ?_⟩
    rw [write_terminator terminated]
    exact owned
  · obtain ⟨result, wrote, after, _⟩ :=
      @Owned.write _ _ _ _ _ _ _ offset _ [0] owned (by simpa using inside)
    exact ⟨result, owned.read inside, by rw [if_pos terminated, wrote], after⟩

/-- `xs_trim` removes the bytes of the set from both ends. -/
theorem Valid.trim
    {allocation : Allocation}
    (valid : Valid state contents)
    (handle : Handle)
    (trimset : CString)
    (kept :
      contents handle = [] ∨ ∃ byte ∈ contents handle, byte ∉ trimset.bytes)
    (fresh : Fresh state allocation) :
    ∃ result,
      xsTrim state (some handle) trimset allocation = some result ∧
        Valid result
          (Function.update contents handle
            (Xstring.trim trimset.bytes (contents handle))) := by
  by_cases noSet : trimset.bytes = []
  · refine ⟨state, by rw [xsTrim, if_pos noSet], ?_⟩
    have unchanged : Xstring.trim trimset.bytes (contents handle) = contents handle := by
      cases shape : contents handle <;> simp [Xstring.trim, noSet, List.rdropWhile]
    rw [unchanged, Function.update_eq_self]
    exact valid
  have sizeEq := (valid.strings handle).xsSize_eq
  have fits := (valid.strings handle).size_le_capacity
  have narrow := (valid.strings handle).capacity_lt
  have short : 2 ^ 32 < words := by decide
  rw [sizeEq] at fits
  have readable := State.read_string (valid.strings handle).read_xsData
  obtain ⟨i, front, slen, inside, between⟩ := loops_trim kept (show _ < words by omega)
  generalize Xstring.trim trimset.bytes (contents handle) = trimmed at slen inside between ⊢
  obtain ⟨cowed, data, separated, owned, _, former, _, flags⟩ := valid.cow handle fresh
  have moved := State.read_sub (State.read_string former) inside
  rw [between] at moved
  obtain ⟨shifted, wrote, owned₁, _⟩ :=
    @Owned.write _ _ _ _ _ _ _ 0 _ trimmed owned (by omega)
  obtain ⟨last, terminated, readLast, wroteLast, owned₂⟩ :=
    @Owned.terminate _ _ _ _ _ _ _ trimmed.length _ owned₁ (by omega)
  have joined : ByteMemory.write (ByteMemory.write data 0 trimmed) trimmed.length [0] =
      ByteMemory.write data 0 (trimmed ++ [0]) := by
    rw [write_append, Nat.zero_add]
  rw [joined] at owned₂
  refine ⟨_, ?_, owned₂.finish (by omega) (owned.flags_write flags (by omega))
    (read_write_of_length List.length_append)⟩
  simp only [xsTrim, if_neg noSet, sizeEq, readable, Option.bind_eq_bind, Option.bind_some, front,
    slen, separated, moved, wrote, readLast]
  split at wroteLast
  · rw [if_pos ‹_›, wroteLast]
    rfl
  · obtain rfl := Option.some.inj wroteLast
    rw [if_neg ‹_›]
    rfl

/-! ## Programs -/

omit [DecidableEq Handle] in
/-- Before the first call every handle holds the empty string. -/
theorem valid_initial : Valid (State.initial : State Handle) fun _ => [] where
  strings := fun _ => Or.inl inlineString_literalEmpty
  counts := by
    intro handle address refers
    have notPtr := inline_literalEmpty.1.not_isPtr
    rw [Refers, State.initial, notPtr] at refers
    simp at refers

/-- Every admissible call succeeds and acts on the strings as its pure function does. -/
theorem Valid.execute
    {op : Op Handle}
    (valid : Valid state contents)
    (admissible : Admissible state op) :
    ∃ result,
      execute state op = some result ∧
        Valid result (applyOp contents op) := by
  cases op with
  | new handle p allocation =>
      obtain ⟨unused, short, fresh⟩ := admissible
      exact valid.new unused p short fresh
  | copy source dest =>
      exact valid.copy source dest admissible
  | concat string former latter allocation =>
      obtain ⟨formerOther, latterOther, short, fresh⟩ := admissible
      refine valid.concat (fun own => ?_) (by omega) fresh
      rcases own with ⟨own, _⟩ | own
      · exact absurd own formerOther
      · exact absurd own latterOther
  | trim handle trimset allocation =>
      obtain ⟨kept, fresh⟩ := admissible
      have readable := State.read_string (valid.strings handle).read_xsData
      rw [(valid.strings handle).xsSize_eq] at kept
      exact valid.trim handle trimset (kept _ readable) fresh
  | free handle =>
      obtain ⟨result, freed, after, _⟩ := valid.free handle
      exact ⟨result, freed, after⟩

/-- The strings of all handles after a program. -/
theorem valid_run
    {ops : List (Op Handle)}
    (run : Run Step State.initial ops state) :
    Valid state (ops.foldl applyOp fun _ => []) := by
  refine @Run.history _ _ _ _ _ _
    (fun ops state => Valid state (ops.foldl applyOp fun _ => [])) run valid_initial ?_
  intro earlier before op after valid step
  obtain ⟨admissible, executed⟩ := step
  obtain ⟨result, returned, afterValid⟩ := valid.execute admissible
  obtain rfl := Option.some.inj (returned.symm.trans executed)
  rw [List.foldl_append]
  exact afterValid

/--
In every program of calls, `xs_data` of each handle holds the string that the pure
functions give it and a terminator, its size is the string's length and within the
capacity, and every further call the program may make succeeds.
-/
theorem strings_follow_operations
    {ops : List (Op Handle)}
    (run : Run Step State.initial ops state) :
    (∀ handle,
      let string := ops.foldl applyOp (fun _ => []) handle
      xsSize (state.xs (some handle)) = string.length ∧
        state.read (xsData state (some handle)) 0 (string.length + 1) = some (string ++ [0]) ∧
        xsSize (state.xs (some handle)) ≤ xsCapacity (state.xs (some handle))) ∧
      ∀ op, Admissible state op → ∃ after, Step state op after := by
  have valid := valid_run run
  constructor
  · intro handle
    have stores := valid.strings handle
    exact ⟨stores.xsSize_eq, stores.read_xsData, stores.size_le_capacity⟩
  · intro op admissible
    obtain ⟨after, executed, _⟩ := valid.execute admissible
    exact ⟨after, admissible, executed⟩

/-- A long literal, a copy that shares its buffer, and a short one. -/
private def sampleOps : List (Op (Fin 3)) :=
  let long : CString := ⟨List.replicate 20 97, by decide⟩
  let short : CString := ⟨[98], by decide⟩
  [.new 0 long ⟨4096, fun _ => 0⟩, .copy 0 1, .new 2 short ⟨8192, fun _ => 0⟩,
    .concat 1 2 0 ⟨8192, fun _ => 0⟩, .free 0]

theorem strings_follow_sampleOps :
    ∃ state, Run Step State.initial sampleOps state ∧
      xsSize (state.xs (some 1)) = 41 ∧
      state.read (xsData state (some 1)) 0 42 =
        some (98 :: List.replicate 40 97 ++ [0]) := by
  have run : ∃ state, Run Step State.initial sampleOps state := by
    refine ⟨_, .extend (.extend (.extend (.extend (.extend .stop
      ⟨⟨rfl, by decide, rfl, by decide⟩, rfl⟩) ⟨rfl, rfl⟩) ⟨⟨rfl, by decide, rfl, by decide⟩, rfl⟩)
      ⟨⟨by decide, by decide, by decide, rfl, by decide⟩, rfl⟩) ⟨trivial, rfl⟩⟩
  obtain ⟨state, run⟩ := run
  have strings := (strings_follow_operations run).1 1
  exact ⟨state, run, strings.1, strings.2.1⟩

end Sysprog.Xstring
