import Sysprog.XsOwnership

namespace Sysprog.Xstring

open ByteMemory CStrings MachineWord

/-!
# What the operations do to strings

Freeing, copying and creating strings, then copy-on-write, after which a handle owns
its bytes alone, and the two operations that edit bytes through it.
-/

variable
  {Handle : Type}
  [DecidableEq Handle]
  {state : State Handle}
  {contents : Handle → List UInt8}
  {handle : Handle}

/-! ## Freeing and copying -/

/-- What `xs_free` leaves behind. -/
structure Freed (state : State Handle) (handle : Handle) (result : State Handle) : Prop where
  emptied : result.xs (some handle) = Xs.literalEmpty
  others : ∀ slot, slot ≠ some handle → result.xs slot = state.xs slot
  detached :
    ∀ address,
      Detached state address →
      Detached result address ∧ result.heap address = state.heap address
  shared :
    ∀ other address block,
      other ≠ handle →
      Refers state other address →
      state.heap address = some block →
      ∃ count, result.heap address = some { block with refcnt := count }

/-- The empty literal holds the empty string. -/
theorem inlineString_literalEmpty : InlineString Xs.literalEmpty [] :=
  ⟨inline_literalEmpty.1, inline_literalEmpty.2, rfl⟩

/-- Assigning a handle that is no pointer only removes references. -/
private theorem detached_assign
    {x : Xs}
    {address : Nat}
    (noPtr : x.isPtr = false)
    (detached : Detached state address) :
    Detached (state.assign (some handle) x) address := by
  intro other refers
  by_cases same : other = handle
  · subst same
    rw [refers_assign_same, noPtr] at refers
    simp at refers
  · exact detached other ((refers_assign_other same).mp refers)

/-- Emptying the only handle of a buffer detaches it. -/
theorem detached_alone
    {address : Nat}
    (alone : ∀ other, other ≠ handle → ¬ Refers state other address) :
    Detached (state.assign (some handle) Xs.literalEmpty) address := by
  intro other refers
  by_cases same : other = handle
  · subst same
    rw [refers_assign_same, inline_literalEmpty.1.not_isPtr] at refers
    simp at refers
  · exact alone other same ((refers_assign_other same).mp refers)

omit [DecidableEq Handle] in
/-- Where a buffer is counted anew, every buffer keeps its bytes. -/
private theorem recounted
    {address used : Nat}
    {block own : Block}
    {remaining : Option Block}
    (live : state.heap address = some block)
    (kept : used = address → ∃ count, remaining = some { block with refcnt := count })
    (ownLive : state.heap used = some own) :
    ∃ count, (state.setBlock address remaining).heap used = some { own with refcnt := count } := by
  by_cases atBlock : used = address
  · obtain ⟨count, rfl⟩ := kept atBlock
    subst atBlock
    rw [live] at ownLive
    obtain rfl := Option.some.inj ownLive
    exact ⟨count, state.setBlock_same _ _⟩
  · refine ⟨own.refcnt, ?_⟩
    rw [state.setBlock_other atBlock]
    exact ownLive

/-- A buffer that one of its handles gives up is counted by the others. -/
private theorem free_counts
    {block : Block}
    {owners : Finset Handle}
    (valid : Valid state contents)
    (isPtr : (state.xs (some handle)).isPtr = true)
    (members : ∀ other, other ∈ owners ↔ Refers state other (state.xs (some handle)).ptr)
    (count : block.refcnt = owners.card)
    {remaining : Option Block}
    (kept :
      ∀ other,
        other ≠ handle →
        Refers state other (state.xs (some handle)).ptr →
        remaining = some { block with refcnt := block.refcnt - 1 })
    {other : Handle}
    {used : Nat}
    (refers :
      Refers
        ((state.setBlock (state.xs (some handle)).ptr remaining).assign (some handle)
          Xs.literalEmpty)
        other used) :
    ∃ block owners,
      ((state.setBlock (state.xs (some handle)).ptr remaining).assign (some handle)
            Xs.literalEmpty).heap used =
          some block ∧
        (∀ other,
          other ∈ owners ↔
            Refers
              ((state.setBlock (state.xs (some handle)).ptr remaining).assign (some handle)
                Xs.literalEmpty)
              other used) ∧
        block.refcnt = Finset.card owners := by
  generalize addressEq : (state.xs (some handle)).ptr = address at *
  have noPtr : Xs.literalEmpty.isPtr = false := inline_literalEmpty.1.not_isPtr
  have refersOther : ∀ {other used}, other ≠ handle →
      (Refers ((state.setBlock address remaining).assign (some handle) Xs.literalEmpty) other
          used ↔ Refers state other used) :=
    fun different => refers_assign_other different
  have different : other ≠ handle := by
    rintro rfl
    rw [refers_assign_same, noPtr] at refers
    simp at refers
  have before := (refersOther different).mp refers
  by_cases atBlock : used = address
  · subst atBlock
    refine ⟨{ block with refcnt := block.refcnt - 1 }, owners.erase handle, ?_, ?_, ?_⟩
    · rw [State.assign_heap, state.setBlock_same]
      exact kept other different before
    · intro another
      rw [Finset.mem_erase, members another]
      by_cases same : another = handle
      · subst same
        simp [refers_assign_same, noPtr]
      · simp [same, refersOther same]
    · rw [Finset.card_erase_of_mem ((members handle).mpr ⟨isPtr, addressEq⟩), ← count]
  · obtain ⟨ownBlock, ownOwners, ownLive, ownMembers, ownCount⟩ :=
      valid.counts other used before
    refine ⟨ownBlock, ownOwners, ?_, ?_, ownCount⟩
    · rw [State.assign_heap, state.setBlock_other atBlock]
      exact ownLive
    · intro another
      rw [ownMembers another]
      by_cases same : another = handle
      · subst same
        rw [refers_assign_same, noPtr]
        simp only [Refers, addressEq, Bool.false_eq_true, false_and, iff_false, not_and]
        exact fun _ => Ne.symm atBlock
      · rw [refersOther same]

/-- Freeing a handle that shares or owns a buffer. -/
private theorem free_pointer
    {block : Block}
    {owners : Finset Handle}
    (valid : Valid state contents)
    (isPtr : (state.xs (some handle)).isPtr = true)
    (live : state.heap (state.xs (some handle)).ptr = some block)
    (members : ∀ other, other ∈ owners ↔ Refers state other (state.xs (some handle)).ptr)
    (count : block.refcnt = owners.card)
    {remaining : Option Block}
    (released :
      remaining =
        if block.refcnt - 1 = 0 then none
        else some { block with refcnt := block.refcnt - 1 }) :
    Valid
        ((state.setBlock (state.xs (some handle)).ptr remaining).assign (some handle)
          Xs.literalEmpty)
        (Function.update contents handle []) ∧
      Freed state handle
        ((state.setBlock (state.xs (some handle)).ptr remaining).assign (some handle)
          Xs.literalEmpty) := by
  generalize addressEq : (state.xs (some handle)).ptr = address at *
  have noPtr : Xs.literalEmpty.isPtr = false := inline_literalEmpty.1.not_isPtr
  have own : handle ∈ owners := (members handle).mpr ⟨isPtr, addressEq⟩
  -- A second owner keeps the count above zero.
  have kept : ∀ other, other ≠ handle → Refers state other address →
      remaining = some { block with refcnt := block.refcnt - 1 } := by
    intro other different refers
    have two : 1 < owners.card :=
      Finset.one_lt_card.mpr ⟨other, (members other).mpr refers, handle, own, different⟩
    rw [released, if_neg (by omega)]
  have sameOther : ∀ other : Handle, other ≠ handle →
      ((state.setBlock address remaining).assign (some handle) Xs.literalEmpty).xs (some other) =
        state.xs (some other) :=
    fun other different =>
      (state.setBlock address remaining).assign_other (by simpa using different)
  have sharedBlock : ∀ other used own, other ≠ handle → Refers state other used →
      state.heap used = some own →
      ∃ count, (state.setBlock address remaining).heap used =
        some { own with refcnt := count } := by
    intro other used own different refers ownLive
    refine recounted live ?_ ownLive
    rintro rfl
    exact ⟨block.refcnt - 1, kept other different refers⟩
  refine ⟨⟨?_, ?_⟩, ⟨?_, ?_, ?_, ?_⟩⟩
  · intro other
    by_cases same : other = handle
    · subst same
      rw [State.assign_same, Function.update_self]
      exact Or.inl inlineString_literalEmpty
    · rw [sameOther other same, Function.update_of_ne same]
      refine (valid.strings other).congr ?_
      intro otherPtr own ownLive
      rw [State.assign_heap]
      exact sharedBlock other _ own same ⟨otherPtr, rfl⟩ ownLive
  · subst addressEq
    exact fun other used => free_counts valid isPtr members count kept
  · exact State.assign_same _
  · intro slot different
    exact (state.setBlock address remaining).assign_other different
  · intro used detached
    have apart : used ≠ address := by
      rintro rfl
      exact detached handle ⟨isPtr, addressEq⟩
    refine ⟨detached_assign noPtr detached, ?_⟩
    rw [State.assign_heap, state.setBlock_other apart]
  · intro other used own different refers ownLive
    rw [State.assign_heap]
    exact sharedBlock other used own different refers ownLive

/-- `xs_free` empties its handle and leaves every other string. -/
theorem Valid.free (valid : Valid state contents) (handle : Handle) :
    ∃ result,
      xsFree state (some handle) = some result ∧
        Valid result (Function.update contents handle []) ∧
        Freed state handle result := by
  have noPtr : Xs.literalEmpty.isPtr = false := inline_literalEmpty.1.not_isPtr
  cases isPtr : (state.xs (some handle)).isPtr with
  | false =>
      refine ⟨state.assign (some handle) Xs.literalEmpty, ?_,
        valid.assign_inline isPtr inlineString_literalEmpty, State.assign_same _,
        fun slot different => state.assign_other different, ?_, ?_⟩
      · simp [xsFree, isPtr]
      · intro used detached
        exact ⟨detached_assign noPtr detached, rfl⟩
      · intro other used own _ _ ownLive
        exact ⟨own.refcnt, ownLive⟩
  | true =>
      obtain ⟨block, owners, live, members, count⟩ := valid.counts handle _ ⟨isPtr, rfl⟩
      refine ⟨_, ?_, free_pointer valid isPtr live members count rfl⟩
      simp only [xsFree, isPtr, if_true, live, Option.bind_eq_bind, Option.bind_some]
      split <;> rfl

/-- Sharing a buffer with one more handle. -/
private theorem copy_pointer
    {source dest : Handle}
    {block : Block}
    {owners : Finset Handle}
    (valid : Valid state contents)
    (unused : (state.xs (some dest)).isPtr = false)
    (isPtr : (state.xs (some source)).isPtr = true)
    (live : state.heap (state.xs (some source)).ptr = some block)
    (members : ∀ other, other ∈ owners ↔ Refers state other (state.xs (some source)).ptr)
    (count : block.refcnt = owners.card) :
    Valid
      ((state.assign (some dest) (state.xs (some source))).setBlock (state.xs (some source)).ptr
        (some { block with refcnt := block.refcnt + 1 }))
      (Function.update contents dest (contents source)) := by
  generalize addressEq : (state.xs (some source)).ptr = address at *
  have fresh : dest ∉ owners := by
    rw [members dest, Refers, unused]
    simp
  have ownRefers : ∀ {used},
      Refers ((state.assign (some dest) (state.xs (some source))).setBlock address
          (some { block with refcnt := block.refcnt + 1 })) dest used ↔ used = address := by
    intro used
    rw [Refers, State.setBlock_xs, state.assign_same, isPtr, addressEq]
    simp [eq_comm]
  have refersOther : ∀ {other used}, other ≠ dest →
      (Refers ((state.assign (some dest) (state.xs (some source))).setBlock address
          (some { block with refcnt := block.refcnt + 1 })) other used ↔
        Refers state other used) :=
    fun different => refers_assign_other different
  have sharedBlock : ∀ used own, state.heap used = some own →
      ∃ count, ((state.assign (some dest) (state.xs (some source))).setBlock address
        (some { block with refcnt := block.refcnt + 1 })).heap used =
          some { own with refcnt := count } := by
    intro used own ownLive
    exact @recounted _ (state.assign (some dest) (state.xs (some source))) _ _ _ _ _ live
      (fun _ => ⟨block.refcnt + 1, rfl⟩) ownLive
  refine ⟨?_, ?_⟩
  · intro other
    have stored : Stores state.heap
        ((state.assign (some dest) (state.xs (some source))).xs (some other))
        (Function.update contents dest (contents source) other) := by
      by_cases same : other = dest
      · subst same
        rw [state.assign_same, Function.update_self]
        exact valid.strings source
      · rw [state.assign_other (by simpa using same), Function.update_of_ne same]
        exact valid.strings other
    refine stored.congr ?_
    intro _ own ownLive
    exact sharedBlock _ own ownLive
  · intro other used refers
    by_cases atBlock : used = address
    · subst atBlock
      refine ⟨{ block with refcnt := block.refcnt + 1 }, insert dest owners,
        State.setBlock_same _ _ _, ?_, ?_⟩
      · intro another
        rw [Finset.mem_insert, members another]
        by_cases same : another = dest
        · subst same
          simp [ownRefers]
        · simp [same, refersOther same]
      · rw [Finset.card_insert_of_notMem fresh, ← count]
    · have different : other ≠ dest := by
        rintro rfl
        exact atBlock (ownRefers.mp refers)
      obtain ⟨own, ownOwners, ownLive, ownMembers, ownCount⟩ :=
        valid.counts other used ((refersOther different).mp refers)
      refine ⟨own, ownOwners, ?_, ?_, ownCount⟩
      · rw [State.setBlock_other _ atBlock]
        exact ownLive
      · intro another
        rw [ownMembers another]
        by_cases same : another = dest
        · subst same
          rw [ownRefers]
          simp [Refers, unused, atBlock]
        · rw [refersOther same]

/-- `xs_copy` gives an unused handle the string of another one. -/
theorem Valid.copy
    (valid : Valid state contents)
    (source dest : Handle)
    (unused : (state.xs (some dest)).isPtr = false) :
    ∃ result,
      xsCopy state (some source) (some dest) = some result ∧
        Valid result (Function.update contents dest (contents source)) := by
  cases isPtr : (state.xs (some source)).isPtr with
  | false =>
      have inPlace := (valid.strings source).inlineString isPtr
      refine ⟨_, ?_, valid.assign_inline unused inPlace⟩
      simp [xsCopy, isPtr]
  | true =>
      obtain ⟨block, owners, live, members, count⟩ := valid.counts source _ ⟨isPtr, rfl⟩
      refine ⟨_, ?_, copy_pointer valid unused isPtr live members count⟩
      simp only [xsCopy, State.assign_same, isPtr, if_true, State.assign_heap, live,
        Option.bind_eq_bind, Option.bind_some]
      rfl

/-! ## Creating -/

/-- The exponents that `ilog2` yields for lengths below `2 ^ 32`. -/
theorem ilog2_spec
    {len : Nat}
    (long : 15 < len)
    (short : len < 2 ^ 32) :
    5 ≤ ilog2 len + 1 ∧ ilog2 len + 1 ≤ 32 ∧ len < 2 ^ (ilog2 len + 1) := by
  have positive : len ≠ 0 := by omega
  rw [ilog2, Nat.mod_eq_of_lt short]
  have atLeast : 4 ≤ len.log2 := (Nat.le_log2 positive).mpr (by omega)
  have atMost : len.log2 < 32 := (Nat.log2_lt positive).mpr short
  exact ⟨by omega, by omega, Nat.lt_log2_self⟩

/-- A capacity gives back its own exponent. -/
theorem ilog2_capacity
    {exponent : Nat}
    (atLeast : 1 ≤ exponent)
    (atMost : exponent ≤ 32) :
    ilog2 (2 ^ exponent - 1) + 1 = exponent := by
  obtain ⟨less, rfl⟩ : ∃ less, exponent = less + 1 := ⟨exponent - 1, by omega⟩
  have bound : 2 ^ (less + 1) ≤ 2 ^ 32 := Nat.pow_le_pow_right (by decide) atMost
  have positive : 0 < 2 ^ less := Nat.two_pow_pos less
  have double : 2 ^ (less + 1) = 2 * 2 ^ less := Nat.pow_succ'
  rw [ilog2, Nat.mod_eq_of_lt (by omega), Nat.add_right_cancel_iff,
    Nat.log2_eq_iff (by omega)]
  omega

/-- Setting the free space completes a short string whose bytes are in place. -/
theorem inlineString_of_bytes
    {x : Xs}
    {string : List UInt8}
    (short : string.length ≤ 15)
    (inline : Inline x)
    (bytes : ByteMemory.read x.data 0 (string.length + 1) = string ++ [0]) :
    InlineString (x.setSpaceLeft (15 - string.length)) string := by
  obtain ⟨inline', space⟩ := inline.setSpaceLeft (15 - string.length)
  refine ⟨inline', by rw [space]; omega, ?_⟩
  rw [← bytes]
  apply read_congr
  intro index below
  by_cases atLast : index = 15
  · -- The terminator of a string of 15 bytes is the byte with the free space.
    subst atLast
    have full : string.length = 15 := by omega
    have terminator : x.data 15 = 0 := by
      have last := @getElem?_read x.data 0 _ _ (Nat.lt_succ_self string.length)
      rw [bytes, List.getElem?_append_right (Nat.le_refl _)] at last
      simpa [full] using last.symm
    simp [Xs.setSpaceLeft, full, terminator, ByteMemory.write]
  · exact write_outside (Or.inl (by omega))

/-- A new short string. -/
theorem inlineString_new
    {string : List UInt8}
    (short : string.length ≤ 15) :
    InlineString
      ((Xs.mk (ByteMemory.write Xs.literalEmpty.data 0 (string ++ [0]))).setSpaceLeft
        (15 - string.length))
      string := by
  refine inlineString_of_bytes short (inline_literalEmpty.1.write_string short) ?_
  simp only
  exact read_write_of_length (by simp)

/-- A new long string in a buffer of its own. -/
private theorem Valid.new_long
    {x : Xs}
    {string : List UInt8}
    {exponent : Nat}
    {allocation : Allocation}
    (valid : Valid state contents)
    (unused : (state.xs (some handle)).isPtr = false)
    (onHeap : OnHeap x allocation.address exponent)
    (size : x.size = string.length)
    (atLeast : 5 ≤ exponent)
    (atMost : exponent ≤ 32)
    (room : string.length + 1 < 2 ^ exponent)
    (fresh : Fresh state allocation) :
    Valid
      ((state.setBlock allocation.address
        (some
          { refcnt := 1
            data := ByteMemory.write allocation.garbage 0 (string ++ [0])
            length := 2 ^ exponent + 7 })).assign (some handle) x)
      (Function.update contents handle string) := by
  have detached := valid.detached_of_free fresh.free
  refine (valid.setBlock detached _).assign_block unused detached
    ⟨onHeap, atLeast, atMost, size, by omega, State.setBlock_same _ _ _, rfl, ?_⟩ rfl
  simp only
  exact read_write_of_length (by simp)

/-- `xs_new` puts a long string into a new buffer. -/
theorem new_long_eq
    {p : CString}
    {allocation : Allocation}
    (long : 15 < p.bytes.length)
    (short : p.bytes.length < 2 ^ 32 - 1)
    (fits : allocation.address < 2 ^ 64) :
    ∃ x,
      OnHeap x allocation.address (ilog2 (p.bytes.length + 1) + 1) ∧
        x.size = p.bytes.length ∧
        xsNew state (some handle) p allocation =
          some
            ((state.setBlock allocation.address
              (some
                { refcnt := 1
                  data := ByteMemory.write allocation.garbage 0 (p.bytes ++ [0])
                  length := 2 ^ (ilog2 (p.bytes.length + 1) + 1) + 7 })).assign
              (some handle) x) := by
  obtain ⟨atLeast, atMost, room⟩ :=
    ilog2_spec (show 15 < p.bytes.length + 1 by omega) (by omega)
  generalize exponentEq : ilog2 (p.bytes.length + 1) + 1 = exponent at atLeast atMost room
  obtain ⟨capacity, onHeap, size⟩ :=
    @onHeap_new allocation.address exponent p.bytes.length fits (by omega) (by omega)
  refine ⟨_, onHeap, size, ?_⟩
  simp only [xsNew, if_pos (show p.bytes.length + 1 > 16 by omega), exponentEq,
    Nat.add_sub_cancel, capacity, refcountCreate, State.assign_same, onHeap.ptr, State.write,
    State.assign_heap, State.setBlock_same, List.length_append, List.length_cons,
    List.length_nil]
  rw [if_pos (by omega), ← State.setBlock_assign, State.setBlock_setBlock]

/-- `xs_new` puts a short string into the handle. -/
theorem new_short_eq
    {p : CString}
    {allocation : Allocation}
    (short : p.bytes.length ≤ 15) :
    xsNew state (some handle) p allocation =
      some
        (state.assign (some handle)
          ((Xs.mk (ByteMemory.write Xs.literalEmpty.data 0 (p.bytes ++ [0]))).setSpaceLeft
            (15 - p.bytes.length))) := by
  simp only [xsNew, if_neg (show ¬ p.bytes.length + 1 > 16 by omega), State.write,
    State.assign_same, List.length_append, List.length_cons, List.length_nil]
  rw [if_pos (by omega)]
  simp

/-- `xs_new` gives an unused handle the string it is passed. -/
theorem Valid.new
    {allocation : Allocation}
    (valid : Valid state contents)
    (unused : (state.xs (some handle)).isPtr = false)
    (p : CString)
    (short : p.bytes.length < 2 ^ 32 - 1)
    (fresh : Fresh state allocation) :
    ∃ result,
      xsNew state (some handle) p allocation = some result ∧
        Valid result (Function.update contents handle p.bytes) := by
  by_cases long : 15 < p.bytes.length
  · obtain ⟨atLeast, atMost, room⟩ :=
      ilog2_spec (show 15 < p.bytes.length + 1 by omega) (by omega)
    obtain ⟨x, onHeap, size, created⟩ := @new_long_eq _ _ state handle _ _ long short fresh.fits
    exact ⟨_, created, valid.new_long unused onHeap size atLeast atMost room fresh⟩
  · have inPlace : p.bytes.length ≤ 15 := Nat.le_of_not_lt long
    exact ⟨_, new_short_eq inPlace, valid.assign_inline unused (inlineString_new inPlace)⟩

/-! ## Preparing a buffer in the local variable -/

/-- The local variable has a buffer of its own; everything else is as in `state`. -/
structure Prepared
    (state result : State Handle)
    (address exponent : Nat)
    (block : Block) : Prop where
  onHeap : OnHeap (result.xs none) address exponent
  unsized : (result.xs none).size = 0
  live : result.heap address = some block
  single : block.refcnt = 1
  length : block.length = 2 ^ exponent + 7
  handles : ∀ other, result.xs (some other) = state.xs (some other)
  heap : ∀ other, other ≠ address → result.heap other = state.heap other

/-- `xs_grow` copies all bytes of a handle without a buffer into a new one. -/
theorem grow_inline_eq
    {slot : Option Handle}
    {allocation : Allocation}
    {len : Nat}
    (notPtr : (state.xs slot).isPtr = false)
    (long : 15 < len)
    (short : len < 2 ^ 32) :
    xsGrow state slot len allocation =
      some
        ((state.setBlock allocation.address
          (some
            { refcnt := 1
              data :=
                ByteMemory.write allocation.garbage 0
                  (ByteMemory.read (state.xs slot).data 0 16)
              length := 2 ^ (ilog2 len + 1) + 7 })).assign slot
          (regrown (state.xs slot) allocation.address (ilog2 len + 1))) := by
  obtain ⟨atLeast, _, _⟩ := ilog2_spec long short
  have grows : ¬ len ≤ xsCapacity (state.xs slot) := by
    simp only [xsCapacity, notPtr, Bool.false_eq_true, if_false]
    omega
  have inside : 0 + (ByteMemory.read (state.xs slot).data 0 16).length ≤
      2 ^ (ilog2 len + 1) + 7 := by
    have := Nat.pow_le_pow_right (show 0 < 2 by decide) atLeast
    rw [length_read]
    omega
  simp only [xsGrow, if_neg grows, notPtr, Bool.false_eq_true, if_false, refcountCreate,
    State.write, State.setBlock_same]
  rw [if_pos inside]
  simp only [Option.bind_eq_bind, Option.bind_some, State.setBlock_setBlock, State.setBlock_xs]
  rfl

/-- `xs_grow` of an empty local variable. -/
theorem grow_prepared
    {allocation : Allocation}
    {len : Nat}
    (fresh : Fresh state allocation)
    (long : 15 < len)
    (short : len < 2 ^ 32) :
    ∃ result block,
      xsGrow (state.assign none Xs.literalEmpty) none len allocation = some result ∧
        Prepared state result allocation.address (ilog2 len + 1) block := by
  obtain ⟨_, atMost, _⟩ := ilog2_spec long short
  have empty : (state.assign none Xs.literalEmpty).xs none = Xs.literalEmpty :=
    State.assign_same _
  obtain ⟨onHeap, unsized⟩ :=
    @onHeap_regrown Xs.literalEmpty _ (ilog2 len + 1) (by rw [Xs.word_literalEmpty]; decide)
      fresh.fits (by omega)
  refine ⟨_, _, grow_inline_eq (by rw [empty]; exact inline_literalEmpty.1.not_isPtr) long short,
    ⟨?_, ?_, State.setBlock_same _ _ _, rfl, rfl, ?_, ?_⟩⟩
  · rw [State.assign_same, empty]
    exact onHeap
  · rw [State.assign_same, empty, unsized]
    decide
  · intro other
    rw [State.assign_other _ (by simp), State.setBlock_xs, State.assign_other _ (by simp)]
  · intro other apart
    exact State.setBlock_other _ apart _

namespace Prepared

variable
  {result : State Handle}
  {address exponent : Nat}
  {block : Block}

omit [DecidableEq Handle] in
/-- The strings are those of before. -/
theorem valid
    (prepared : Prepared state result address exponent block)
    (valid : Valid state contents)
    (detached : Detached state address) :
    Valid result contents ∧ Detached result address := by
  refine ⟨valid.transfer prepared.handles ?_, ?_⟩
  · intro other used refers
    apply prepared.heap
    rintro rfl
    exact detached other refers
  · intro other refers
    rw [Refers, prepared.handles] at refers
    exact detached other refers

omit [DecidableEq Handle] in
/-- The data of the local variable is its buffer. -/
theorem xsData_eq (prepared : Prepared state result address exponent block) :
    xsData result none = .block address := by
  rw [xsData, if_pos prepared.onHeap.isPtr, prepared.onHeap.ptr]

/-- Writing to the prepared buffer. -/
theorem write
    {offset : Nat}
    {bytes : List UInt8}
    (prepared : Prepared state result address exponent block)
    (inside : offset + bytes.length ≤ 2 ^ exponent) :
    ∃ next,
      result.write (.block address) offset bytes = some next ∧
        Prepared state next address exponent
          { block with data := ByteMemory.write block.data offset bytes } := by
  have length := prepared.length
  refine ⟨result.setBlock address
      (some { block with data := ByteMemory.write block.data offset bytes }), ?_,
    ⟨prepared.onHeap, prepared.unsized, State.setBlock_same _ _ _, prepared.single, length,
      prepared.handles, ?_⟩⟩
  · simp only [State.write, prepared.live]
    rw [if_pos (by omega)]
  · intro other apart
    rw [result.setBlock_other apart, prepared.heap other apart]

omit [DecidableEq Handle] in
/-- The data of every handle is where and what it was before. -/
theorem read_handle
    {other : Handle}
    (prepared : Prepared state result address exponent block)
    (detached : Detached state address)
    (offset length : Nat) :
    result.read (xsData state (some other)) offset length =
      state.read (xsData state (some other)) offset length := by
  cases isPtr : (state.xs (some other)).isPtr with
  | false =>
      simp only [xsData, isPtr, Bool.false_eq_true, if_false, State.read, prepared.handles]
  | true =>
      have apart : (state.xs (some other)).ptr ≠ address := by
        intro same
        exact detached other ⟨isPtr, same⟩
      simp only [xsData, isPtr, if_true, State.read, prepared.heap _ apart]

end Prepared

/-! ## Bytes a handle owns alone -/

/--
The bytes at `place` belong to this handle alone, and up to `capacity` of them and a
terminator fit.
-/
def Private
    (state : State Handle)
    (handle : Handle)
    (place : Place Handle)
    (capacity : Nat)
    (data : Memory) : Prop :=
  (place = .inline (some handle) ∧ capacity = 15 ∧ data = (state.xs (some handle)).data) ∨
    ∃ address exponent block,
      place = .block address ∧
        OnHeap (state.xs (some handle)) address exponent ∧
        5 ≤ exponent ∧
        exponent ≤ 32 ∧
        capacity = 2 ^ exponent - 1 ∧
        state.heap address = some block ∧
        block.length = 2 ^ exponent + 7 ∧
        block.refcnt = 1 ∧
        data = block.data ∧
        ∀ other, other ≠ handle → ¬ Refers state other address

/-- A handle owns its bytes, and all other handles hold their strings. -/
structure Owned
    (state : State Handle)
    (contents : Handle → List UInt8)
    (handle : Handle)
    (place : Place Handle)
    (capacity : Nat)
    (data : Memory) : Prop where
  others :
    Valid (state.assign (some handle) Xs.literalEmpty) (Function.update contents handle [])
  own : Private state handle place capacity data

namespace Owned

variable
  {place : Place Handle}
  {capacity offset : Nat}
  {data : Memory}

theorem read
    {length : Nat}
    (owned : Owned state contents handle place capacity data)
    (inside : offset + length ≤ capacity + 1) :
    state.read place offset length = some (ByteMemory.read data offset length) := by
  rcases owned.own with
    ⟨rfl, rfl, rfl⟩ |
      ⟨address, exponent, block, rfl, _, _, _, rfl, live, length', _, rfl, _⟩
  · simp only [State.read]
    rw [if_pos (by omega)]
  · have positive := Nat.two_pow_pos exponent
    simp only [State.read, live]
    rw [if_pos (by omega)]

/-- Writing to owned bytes changes nothing else. -/
theorem write
    {bytes : List UInt8}
    (owned : Owned state contents handle place capacity data)
    (inside : offset + bytes.length ≤ capacity + 1) :
    ∃ result,
      state.write place offset bytes = some result ∧
        Owned result contents handle place capacity (ByteMemory.write data offset bytes) ∧
        ∀ slot, slot ≠ some handle → result.xs slot = state.xs slot := by
  obtain ⟨others, own⟩ := owned
  rcases own with
    ⟨rfl, rfl, rfl⟩ |
      ⟨address, exponent, block, rfl, onHeap, atLeast, atMost, rfl, live, length, single, rfl,
        alone⟩
  · refine ⟨state.assign (some handle)
        { data := ByteMemory.write (state.xs (some handle)).data offset bytes }, ?_, ⟨?_, ?_⟩,
      fun slot different => state.assign_other different⟩
    · simp only [State.write]
      rw [if_pos (by omega)]
    · rw [State.assign_assign]
      exact others
    · exact Or.inl ⟨rfl, rfl, by rw [State.assign_same]⟩
  · have positive := Nat.two_pow_pos exponent
    have detached := detached_alone alone
    refine ⟨state.setBlock address
        (some { block with data := ByteMemory.write block.data offset bytes }), ?_, ⟨?_, ?_⟩,
      fun _ _ => rfl⟩
    · simp only [State.write, live]
      rw [if_pos (by omega)]
    · rw [State.setBlock_assign]
      exact others.setBlock detached _
    · exact Or.inr ⟨address, exponent, _, rfl, onHeap, atLeast, atMost, rfl,
        State.setBlock_same _ _ _, length, single, rfl, alone⟩

/-- Setting the length completes a string in owned bytes. -/
theorem finish
    {string : List UInt8}
    (owned : Owned state contents handle place capacity data)
    (fits : string.length ≤ capacity)
    (flags : place = .inline (some handle) → (data 15).toNat < 16)
    (bytes : ByteMemory.read data 0 (string.length + 1) = string ++ [0]) :
    Valid (setLength state (some handle) string.length)
      (Function.update contents handle string) := by
  obtain ⟨others, own⟩ := owned
  have noPtr : Xs.literalEmpty.isPtr = false := inline_literalEmpty.1.not_isPtr
  have unused :
      ((state.assign (some handle) Xs.literalEmpty).xs (some handle)).isPtr = false := by
    rw [State.assign_same]
    exact noPtr
  rcases own with
    ⟨rfl, rfl, rfl⟩ |
      ⟨address, exponent, block, rfl, onHeap, atLeast, atMost, rfl, live, length, single, rfl,
        alone⟩
  · have inline : Inline (state.xs (some handle)) := Inline.of_lastByte (flags rfl)
    have completed := others.assign_inline unused (inlineString_of_bytes fits inline bytes)
    rw [State.assign_assign, Function.update_idem] at completed
    simpa only [setLength, inline.not_isPtr, Bool.false_eq_true, if_false] using completed
  · have positive := Nat.two_pow_pos exponent
    have narrow : 2 ^ exponent ≤ 2 ^ 32 := Nat.pow_le_pow_right (by decide) atMost
    have detached := detached_alone alone
    obtain ⟨resized, size⟩ := onHeap.setSize (show string.length < 2 ^ 54 by omega)
    have completed := others.assign_block unused detached
      ⟨resized, atLeast, atMost, size, by omega, live, length, bytes⟩ single
    rw [State.assign_assign, Function.update_idem] at completed
    simpa only [setLength, onHeap.isPtr, if_true] using completed

end Owned

/-- A handle takes over the buffer of the local variable. -/
theorem Prepared.adopt
    {result : State Handle}
    {address exponent : Nat}
    {block : Block}
    (prepared : Prepared state result address exponent block)
    (valid : Valid state contents)
    (detached : Detached state address)
    (atLeast : 5 ≤ exponent)
    (atMost : exponent ≤ 32)
    (handle : Handle) :
    ∃ freed,
      xsFree result (some handle) = some freed ∧
        Freed result handle freed ∧
        Owned (freed.assign (some handle) (freed.xs none)) contents handle (.block address)
          (2 ^ exponent - 1) block.data ∧
        xsData (freed.assign (some handle) (freed.xs none)) (some handle) = .block address := by
  obtain ⟨resultValid, resultDetached⟩ := prepared.valid valid detached
  obtain ⟨freed, returned, freedValid, wasFreed⟩ := resultValid.free handle
  have local' : freed.xs none = result.xs none := wasFreed.others none (by simp)
  obtain ⟨stillDetached, sameBlock⟩ := wasFreed.detached address resultDetached
  have emptied : (freed.xs (some handle)).isPtr = false := by
    rw [wasFreed.emptied]
    exact inline_literalEmpty.1.not_isPtr
  have onHeap : OnHeap ((freed.assign (some handle) (freed.xs none)).xs (some handle)) address
      exponent := by
    rw [State.assign_same, local']
    exact prepared.onHeap
  refine ⟨freed, returned, wasFreed, ⟨?_, ?_⟩, ?_⟩
  · have emptyAgain := freedValid.assign_inline emptied inlineString_literalEmpty
    rw [Function.update_idem] at emptyAgain
    rw [State.assign_assign]
    exact emptyAgain
  · refine Or.inr ⟨address, exponent, block, rfl, onHeap, atLeast, atMost, rfl,
      sameBlock.trans prepared.live, prepared.length, prepared.single, rfl, ?_⟩
    intro other different refers
    exact stillDetached other ((refers_assign_other different).mp refers)
  · rw [xsData, if_pos onHeap.isPtr, onHeap.ptr]

/-! ## Copy-on-write -/

/-- What `xs_cow` achieves. -/
structure Separated
    (state : State Handle)
    (contents : Handle → List UInt8)
    (handle : Handle)
    (result : State Handle)
    (data : Memory) : Prop where
  owned :
    Owned result contents handle (xsData result (some handle))
      (xsCapacity (state.xs (some handle))) data
  bytes :
    ByteMemory.read data 0 ((contents handle).length + 1) = contents handle ++ [0]
  former :
    result.read (xsData state (some handle)) 0 ((contents handle).length + 1) =
      some (contents handle ++ [0])
  others : ∀ other, other ≠ handle → result.xs (some other) = state.xs (some other)
  flags : xsData result (some handle) = .inline (some handle) → (data 15).toNat < 16

/-- A string in place belongs to its handle. -/
private theorem separated_inline
    (valid : Valid state contents)
    (notPtr : (state.xs (some handle)).isPtr = false) :
    Separated state contents handle state (state.xs (some handle)).data := by
  have inPlace := (valid.strings handle).inlineString notPtr
  have place : xsData state (some handle) = .inline (some handle) := by
    simp [xsData, notPtr]
  refine ⟨⟨?_, ?_⟩, inPlace.bytes, (valid.strings handle).read_xsData, fun _ _ => rfl,
    fun _ => inPlace.inline.lastByte_lt⟩
  · exact valid.assign_inline notPtr inlineString_literalEmpty
  · rw [place, inPlace.inline.xsCapacity_eq]
    exact Or.inl ⟨rfl, rfl, rfl⟩

/-- A buffer with a single handle belongs to it. -/
private theorem separated_unshared
    {block : Block}
    {owners : Finset Handle}
    (valid : Valid state contents)
    (isPtr : (state.xs (some handle)).isPtr = true)
    (live : state.heap (state.xs (some handle)).ptr = some block)
    (members : ∀ other, other ∈ owners ↔ Refers state other (state.xs (some handle)).ptr)
    (count : block.refcnt = owners.card)
    (unshared : ¬ 1 < block.refcnt) :
    Separated state contents handle state block.data := by
  have own : handle ∈ owners := (members handle).mpr ⟨isPtr, rfl⟩
  have single : block.refcnt = 1 := by
    have positive := Finset.card_pos.mpr ⟨handle, own⟩
    omega
  have alone : ∀ other, other ≠ handle → ¬ Refers state other (state.xs (some handle)).ptr := by
    intro other different refers
    have two : 1 < owners.card :=
      Finset.one_lt_card.mpr ⟨other, (members other).mpr refers, handle, own, different⟩
    omega
  obtain ⟨exponent, stored, onHeap⟩ := (valid.strings handle).heapString isPtr
  obtain rfl : stored = block := by
    have same := onHeap.live
    rw [live] at same
    exact (Option.some.inj same).symm
  have place : xsData state (some handle) = .block (state.xs (some handle)).ptr := by
    simp [xsData, isPtr]
  refine ⟨⟨?_, ?_⟩, onHeap.bytes, (valid.strings handle).read_xsData, fun _ _ => rfl, ?_⟩
  · -- Freeing would release the buffer; putting it back makes it a detached one.
    have released := (free_pointer valid isPtr live members count rfl).1
    rw [State.setBlock_assign] at released
    have restored := released.setBlock (detached_alone alone) (some stored)
    rw [State.setBlock_setBlock] at restored
    refine restored.transfer (fun _ => rfl) ?_
    intro other used _
    by_cases same : used = (state.xs (some handle)).ptr
    · rw [same, State.setBlock_same, State.assign_heap, live]
    · rw [State.setBlock_other _ same]
  · rw [place, onHeap.onHeap.xsCapacity_eq]
    exact Or.inr ⟨_, exponent, stored, rfl, onHeap.onHeap, onHeap.atLeast, onHeap.atMost, rfl,
      live, onHeap.length, single, rfl, alone⟩
  · rw [place]
    simp

omit [DecidableEq Handle] in
/-- Where a handle's data is depends on the handle only. -/
private theorem xsData_congr
    {result : State Handle}
    {slot : Option Handle}
    (same : result.xs slot = state.xs slot) :
    xsData result slot = xsData state slot := by
  rw [xsData, same, xsData]

/-- A shared buffer is copied, and the copy belongs to the handle. -/
private theorem cow_shared
    {block : Block}
    {owners : Finset Handle}
    {allocation : Allocation}
    (valid : Valid state contents)
    (fresh : Fresh state allocation)
    (isPtr : (state.xs (some handle)).isPtr = true)
    (live : state.heap (state.xs (some handle)).ptr = some block)
    (members : ∀ other, other ∈ owners ↔ Refers state other (state.xs (some handle)).ptr)
    (count : block.refcnt = owners.card)
    (shared : 1 < block.refcnt) :
    ∃ result data,
      xsCow state (some handle) allocation = some result ∧
        Separated state contents handle result data := by
  have detached := valid.detached_of_free fresh.free
  have stores := valid.strings handle
  obtain ⟨exponent, stored, onHeap⟩ := stores.heapString isPtr
  obtain ⟨atLeast, atMost⟩ := And.intro onHeap.atLeast onHeap.atMost
  have fits := onHeap.fits
  have narrow : 2 ^ exponent ≤ 2 ^ 32 := Nat.pow_le_pow_right (by decide) atMost
  have wide : 2 ^ 5 ≤ 2 ^ exponent := Nat.pow_le_pow_right (by decide) atLeast
  have capacity := onHeap.onHeap.xsCapacity_eq
  obtain ⟨grown, fill, grew, prepared⟩ :=
    grow_prepared fresh (show 15 < 2 ^ exponent - 1 by omega) (by omega)
  rw [ilog2_capacity (by omega) atMost] at prepared
  have copied : grown.read (xsData grown (some handle)) 0
      (xsSize (grown.xs (some handle)) + 1) = some (contents handle ++ [0]) := by
    rw [xsData_congr (prepared.handles handle), prepared.handles, prepared.read_handle detached,
      stores.xsSize_eq]
    exact stores.read_xsData
  obtain ⟨filled, wrote, ready⟩ :=
    @Prepared.write _ _ _ _ _ _ _ 0 (contents handle ++ [0]) prepared (by simp; omega)
  obtain ⟨freed, released, wasFreed, owned, place⟩ :=
    ready.adopt valid detached atLeast atMost handle
  refine ⟨freed.assign (some handle) (freed.xs none),
    ByteMemory.write fill.data 0 (contents handle ++ [0]), ?_, ⟨?_, ?_, ?_, ?_, ?_⟩⟩
  · have handleKept : (state.assign none Xs.literalEmpty).xs (some handle) =
        state.xs (some handle) := State.assign_other _ (by simp)
    simp only [xsCow, refcountGet, isPtr, if_true, live, Option.map_some, Option.bind_eq_bind,
      Option.bind_some, if_pos shared, handleKept, capacity, grew, copied, prepared.xsData_eq,
      wrote, released]
    rfl
  · rw [place, capacity]
    exact owned
  · exact read_write_of_length (by simp)
  · -- Another owner keeps the old buffer alive.
    obtain ⟨other, otherOwns, different⟩ :=
      Finset.exists_mem_ne (count ▸ shared) handle
    have otherRefers := (members other).mp otherOwns
    have apart : (state.xs (some handle)).ptr ≠ allocation.address := by
      intro same
      exact detached handle ⟨isPtr, same⟩
    obtain ⟨remaining, kept⟩ := wasFreed.shared other (state.xs (some handle)).ptr block different
      (by rw [Refers, ready.handles]; exact otherRefers) (by rw [ready.heap _ apart]; exact live)
    have before := stores.read_xsData
    rw [xsData, if_pos isPtr] at before ⊢
    simp only [State.read, live, State.assign_heap, kept] at before ⊢
    exact before
  · intro other different
    rw [State.assign_other _ (by simpa using different),
      wasFreed.others _ (by simpa using different), ready.handles]
  · rw [place]
    simp

/-- After `xs_cow` the handle owns its bytes alone. -/
theorem Valid.cow
    {allocation : Allocation}
    (valid : Valid state contents)
    (handle : Handle)
    (fresh : Fresh state allocation) :
    ∃ result data,
      xsCow state (some handle) allocation = some result ∧
        Separated state contents handle result data := by
  cases isPtr : (state.xs (some handle)).isPtr with
  | false =>
      refine ⟨state, _, ?_, separated_inline valid isPtr⟩
      simp [xsCow, refcountGet, isPtr]
  | true =>
      obtain ⟨block, owners, live, members, count⟩ := valid.counts handle _ ⟨isPtr, rfl⟩
      by_cases shared : 1 < block.refcnt
      · exact cow_shared valid fresh isPtr live members count shared
      · refine ⟨state, _, ?_, separated_unshared valid isPtr live members count shared⟩
        simp only [xsCow, refcountGet, isPtr, if_true, live, Option.map_some,
          Option.bind_eq_bind, Option.bind_some, if_neg shared]
        rfl

end Sysprog.Xstring
