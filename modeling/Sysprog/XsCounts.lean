import Sysprog.ReferenceCounts
import Sysprog.XsOperations

namespace Sysprog.Xstring

open ByteMemory CStrings Execution MachineWord ReferenceCounts

/-!
# The counts of the buffers

Whatever bytes the strings hold, handles and buffers form a ledger of reference
counts.  Each operation is described by what it does to that ledger: it shares, drops
or creates, or it only touches bytes.
-/

variable {Handle : Type}

/-! ## Handles and buffers as a ledger -/

/-- The buffer a handle refers to. -/
def Xs.held (x : Xs) : Option Nat :=
  if x.isPtr then some x.ptr else none

/-- The handles as owners of the buffers. -/
def ledger (state : State Handle) : Ledger Handle Nat where
  holds := fun handle => (state.xs (some handle)).held
  count := fun address => (state.heap address).map Block.refcnt

/-- A pointer handle fits the buffer it refers to. -/
structure Backed (heap : Heap) (x : Xs) (exponent : Nat) (block : Block) : Prop where
  onHeap : OnHeap x x.ptr exponent
  atLeast : 5 ≤ exponent
  atMost : exponent ≤ 32
  sized : x.size < 2 ^ exponent
  live : heap x.ptr = some block
  length : block.length = 2 ^ exponent + 7

/-- The buffer of a handle is not at an address that is free. -/
theorem Backed.ptr_ne
    {heap : Heap}
    {x : Xs}
    {exponent address : Nat}
    {block : Block}
    (backed : Backed heap x exponent block)
    (free : heap address = none) :
    x.ptr ≠ address := by
  rintro rfl
  rw [backed.live] at free
  simp at free

/-- The counts are exact, and every pointer handle fits its buffer. -/
structure Accounted (state : State Handle) : Prop where
  exact : Exact (ledger state)
  backed :
    ∀ handle,
      (state.xs (some handle)).isPtr = true →
      ∃ exponent block, Backed state.heap (state.xs (some handle)) exponent block

theorem Xs.held_of_isPtr {x : Xs} (isPtr : x.isPtr = true) : x.held = some x.ptr :=
  if_pos isPtr

theorem Xs.held_of_not_isPtr {x : Xs} (notPtr : x.isPtr = false) : x.held = none := by
  simp [held, notPtr]

theorem Xs.held_literalEmpty : Xs.literalEmpty.held = none :=
  Xs.held_of_not_isPtr inline_literalEmpty.1.not_isPtr

/-- A handle that refers to a buffer is a pointer to it. -/
theorem Xs.held_eq_some {x : Xs} {address : Nat} :
    x.held = some address ↔ x.isPtr = true ∧ x.ptr = address := by
  cases isPtr : x.isPtr with
  | false => simp [held, isPtr]
  | true => simp [held, isPtr]

section Frames

variable {before after : State Handle} {handle : Handle}

/--
What a call on one handle may change: that handle, and which buffers there are, but
not the other handles nor the length of a buffer.
-/
structure Touches (before after : State Handle) (handle : Handle) : Prop where
  others : ∀ other, other ≠ handle → after.xs (some other) = before.xs (some other)
  lengths :
    ∀ address former latter,
      before.heap address = some former →
      after.heap address = some latter →
      latter.length = former.length

/-- The same for a call that leaves all bytes alone as well. -/
structure Spares (before after : State Handle) (handle : Handle) : Prop where
  others : ∀ other, other ≠ handle → after.xs (some other) = before.xs (some other)
  blocks :
    ∀ address former latter,
      before.heap address = some former →
      after.heap address = some latter →
      latter = { former with refcnt := latter.refcnt }

theorem Spares.refl (state : State Handle) (handle : Handle) : Spares state state handle where
  others := fun _ _ => rfl
  blocks := by
    intro address former latter live again
    rw [Option.some.inj (live.symm.trans again)]

theorem Spares.touches (spares : Spares before after handle) : Touches before after handle where
  others := spares.others
  lengths := by
    intro address former latter live again
    rw [spares.blocks address former latter live again]

/-- With exact counts after a call, only its own handle has to be looked at. -/
theorem Accounted.of_touches
    (accounted : Accounted before)
    (touches : Touches before after handle)
    (exact : Exact (ledger after))
    (own :
      (after.xs (some handle)).isPtr = true →
      ∃ exponent block, Backed after.heap (after.xs (some handle)) exponent block) :
    Accounted after := by
  refine ⟨exact, ?_⟩
  intro other isPtr
  by_cases same : other = handle
  · subst same
    exact own isPtr
  · have sameXs := touches.others other same
    obtain ⟨count, counted⟩ := exact.counted (Xs.held_of_isPtr isPtr)
    obtain ⟨latter, live, _⟩ := Option.map_eq_some_iff.mp counted
    rw [sameXs] at isPtr live ⊢
    obtain ⟨exponent, former, backed⟩ := accounted.backed other isPtr
    have length := touches.lengths _ former latter backed.live live
    exact ⟨exponent, latter, { backed with live := live, length := length.trans backed.length }⟩

end Frames

section Ledgers

variable (state : State Handle)

theorem ledger_assign [DecidableEq Handle] (handle : Handle) (x : Xs) :
    ledger (state.assign (some handle) x) =
      { ledger state with holds := Function.update (ledger state).holds handle x.held } := by
  ext other
  · by_cases same : other = handle
    · subst same
      simp [ledger]
    · simp [ledger, State.assign, same]
  · rfl

theorem ledger_setBlock (address : Nat) (block : Option Block) :
    ledger (state.setBlock address block) =
      { ledger state with
        count := Function.update (ledger state).count address (block.map Block.refcnt) } := by
  ext other
  · rfl
  · by_cases same : other = address
    · subst same
      simp [ledger, State.setBlock]
    · simp [ledger, State.setBlock, same]

end Ledgers

/-! ## Bytes within bounds -/

section Bounds

variable {state : State Handle} {place : Place Handle} {offset length limit : Nat}

/-- Bytes within what is pointed into can be read. -/
theorem read_within
    (bound : state.extent place = some limit)
    (inside : offset + length ≤ limit) :
    ∃ bytes, state.read place offset length = some bytes ∧ bytes.length = length := by
  cases place with
  | inline slot =>
      obtain rfl : 16 = limit := by simpa [State.extent] using bound
      exact ⟨_, if_pos inside, length_read⟩
  | block address =>
      obtain ⟨block, live, rfl⟩ := Option.map_eq_some_iff.mp bound
      refine ⟨ByteMemory.read block.data offset length, ?_, length_read⟩
      simp only [State.read, live]
      exact if_pos inside

/-- What was read lies within what is pointed into. -/
theorem extent_of_read
    {bytes : List UInt8}
    (readable : state.read place offset length = some bytes) :
    ∃ limit, state.extent place = some limit ∧ offset + length ≤ limit := by
  cases place with
  | inline slot =>
      simp only [State.read] at readable
      split at readable
      · exact ⟨16, rfl, by assumption⟩
      · simp at readable
  | block address =>
      simp only [State.read] at readable
      split at readable
      · simp at readable
      · rename_i block live
        split at readable
        · exact ⟨block.length, by simp [State.extent, live], by assumption⟩
        · simp at readable

/-- As many bytes are read as were asked for. -/
theorem length_of_read
    {bytes : List UInt8}
    (readable : state.read place offset length = some bytes) :
    bytes.length = length := by
  obtain ⟨limit, bound, inside⟩ := extent_of_read readable
  obtain ⟨same, again, count⟩ := read_within bound inside
  rw [Option.some.inj (readable.symm.trans again), count]

/-- What the bytes of one slot or of a buffer are changed to. -/
structure Edits (before after : State Handle) (slot : Option Handle) : Prop where
  counts : ∀ address, (after.heap address).map Block.refcnt = (before.heap address).map Block.refcnt
  lengths : ∀ address, (after.heap address).map Block.length = (before.heap address).map Block.length
  others : ∀ other, other ≠ slot → after.xs other = before.xs other
  pointer : (before.xs slot).isPtr = true → after.xs slot = before.xs slot

theorem Edits.extent
    {before after : State Handle}
    {slot : Option Handle}
    (edits : Edits before after slot)
    (place : Place Handle) :
    after.extent place = before.extent place := by
  cases place with
  | inline other => rfl
  | block address => exact edits.lengths address

theorem Edits.trans
    {first second third : State Handle}
    {slot : Option Handle}
    (earlier : Edits first second slot)
    (later : Edits second third slot) :
    Edits first third slot where
  counts := fun address => (later.counts address).trans (earlier.counts address)
  lengths := fun address => (later.lengths address).trans (earlier.lengths address)
  others := fun other different => (later.others other different).trans (earlier.others other different)
  pointer := by
    intro isPtr
    have same := earlier.pointer isPtr
    rw [← same] at isPtr
    exact (later.pointer isPtr).trans same

/-- Edits of the bytes of a handle are part of a call on it. -/
theorem Edits.touches
    {before middle after : State Handle}
    {handle : Handle}
    (edits : Edits middle after (some handle))
    (touches : Touches before middle handle) :
    Touches before after handle := by
  refine ⟨?_, ?_⟩
  · intro other different
    exact (edits.others (some other) (by simpa using different)).trans
      (touches.others other different)
  · intro address former latter live again
    have same := edits.lengths address
    rw [again] at same
    obtain ⟨between, between_live, length⟩ := Option.map_eq_some_iff.mp same.symm
    rw [← length]
    exact touches.lengths address former between live between_live

/-- Edits keep the ledger while the handle refers to what it did. -/
theorem Edits.ledger_eq
    {before after : State Handle}
    {handle : Handle}
    (edits : Edits before after (some handle))
    (held : (after.xs (some handle)).held = (before.xs (some handle)).held) :
    ledger after = ledger before := by
  ext other : 2
  · by_cases same : other = handle
    · subst same
      exact held
    · simp only [ledger]
      rw [edits.others (some other) (by simpa using same)]
  · exact edits.counts other

variable [DecidableEq Handle]

/-- Bytes within what is pointed into can be written. -/
theorem write_within
    {bytes : List UInt8}
    (bound : state.extent place = some limit)
    (inside : offset + bytes.length ≤ limit) :
    ∃ result, state.write place offset bytes = some result := by
  cases place with
  | inline slot =>
      obtain rfl : 16 = limit := by simpa [State.extent] using bound
      exact ⟨_, if_pos inside⟩
  | block address =>
      obtain ⟨block, live, rfl⟩ := Option.map_eq_some_iff.mp bound
      simp only [State.write, live]
      exact ⟨_, if_pos inside⟩

/-- Bytes within a buffer can be written, whoever holds it. -/
theorem write_block
    {bytes : List UInt8}
    {address : Nat}
    (slot : Option Handle)
    (bound : state.extent (.block address) = some limit)
    (inside : offset + bytes.length ≤ limit) :
    ∃ result, state.write (.block address) offset bytes = some result ∧ Edits state result slot := by
  obtain ⟨block, live, rfl⟩ := Option.map_eq_some_iff.mp bound
  refine ⟨state.setBlock address
    (some { block with data := ByteMemory.write block.data offset bytes }), ?_,
    ?_, ?_, fun _ _ => rfl, fun _ => rfl⟩
  · simp only [State.write, live]
    exact if_pos inside
  · intro other
    by_cases same : other = address
    · rw [same, State.setBlock_same, live]
      rfl
    · rw [State.setBlock_other _ same]
  · intro other
    by_cases same : other = address
    · rw [same, State.setBlock_same, live]
      rfl
    · rw [State.setBlock_other _ same]

/-- The bytes of a slot that is no pointer can be written. -/
theorem write_inline
    {bytes : List UInt8}
    {slot : Option Handle}
    (notPtr : (state.xs slot).isPtr = false)
    (inside : offset + bytes.length ≤ 16) :
    ∃ result,
      state.write (.inline slot) offset bytes = some result ∧
        Edits state result slot ∧
        result.heap = state.heap ∧
        (result.xs slot).data = ByteMemory.write (state.xs slot).data offset bytes := by
  refine ⟨state.assign slot { data := ByteMemory.write (state.xs slot).data offset bytes },
    if_pos inside, ⟨fun _ => rfl, fun _ => rfl, fun other different => state.assign_other different,
      ?_⟩, rfl, by rw [State.assign_same]⟩
  intro isPtr
  rw [notPtr] at isPtr
  simp at isPtr

end Bounds

/-! ## Dropping, sharing and creating -/

section Operations

variable [DecidableEq Handle] {state : State Handle} {handle : Handle}

/-- `xs_free` drops the handle from the ledger. -/
theorem free_ledger
    (live :
      (state.xs (some handle)).isPtr = true →
      ∃ block, state.heap (state.xs (some handle)).ptr = some block) :
    ∃ result,
      xsFree state (some handle) = some result ∧
        ledger result = (ledger state).drop handle ∧
        Spares state result handle ∧
        (∀ slot, slot ≠ some handle → result.xs slot = state.xs slot) ∧
        result.xs (some handle) = Xs.literalEmpty ∧
        ∀ address,
          (ledger state).holds handle ≠ some address →
          result.heap address = state.heap address := by
  cases isPtr : (state.xs (some handle)).isPtr with
  | false =>
      have nothing : (ledger state).holds handle = none := Xs.held_of_not_isPtr isPtr
      refine ⟨state.assign (some handle) Xs.literalEmpty, by simp [xsFree, isPtr], ?_, ?_,
        fun slot different => state.assign_other different, State.assign_same _,
        fun _ _ => rfl⟩
      · rw [ledger_assign, Xs.held_literalEmpty]
        simp only [Ledger.drop, nothing]
      · refine ⟨fun other different => state.assign_other (by simpa using different), ?_⟩
        exact (Spares.refl state handle).blocks
  | true =>
      obtain ⟨block, blockLive⟩ := live isPtr
      have own : (ledger state).holds handle = some (state.xs (some handle)).ptr :=
        Xs.held_of_isPtr isPtr
      generalize addressEq : (state.xs (some handle)).ptr = address at blockLive own
      let remaining : Option Block :=
        if block.refcnt - 1 = 0 then none else some { block with refcnt := block.refcnt - 1 }
      refine ⟨(state.setBlock address remaining).assign (some handle) Xs.literalEmpty, ?_, ?_, ?_,
        fun slot different => State.assign_other _ different, State.assign_same _, ?_⟩
      · simp only [xsFree, isPtr, if_true, addressEq, blockLive, Option.bind_eq_bind,
          Option.bind_some, remaining]
        split <;> rfl
      · have counted : (ledger state).count address = some block.refcnt := by
          simp [ledger, blockLive]
        have left : remaining.map Block.refcnt = released (some block.refcnt) := by
          simp only [remaining, released]
          split <;> rfl
        rw [ledger_assign, ledger_setBlock, Xs.held_literalEmpty]
        simp only [Ledger.drop, own, counted, left]
      · refine ⟨fun other different => State.assign_other _ (by simpa using different), ?_⟩
        intro used former latter formerLive latterLive
        rw [State.assign_heap] at latterLive
        by_cases same : used = address
        · rw [same, blockLive] at formerLive
          obtain rfl := Option.some.inj formerLive
          rw [same, State.setBlock_same] at latterLive
          simp only [remaining] at latterLive
          split at latterLive
          · simp at latterLive
          · rw [← Option.some.inj latterLive]
        · rw [State.setBlock_other _ same] at latterLive
          exact (Spares.refl state handle).blocks used former latter formerLive latterLive
      · intro used different
        rw [State.assign_heap]
        apply State.setBlock_other
        rintro rfl
        exact different own

/-- `xs_free` keeps the counts exact. -/
theorem Accounted.free
    (accounted : Accounted state)
    (handle : Handle) :
    ∃ result,
      xsFree state (some handle) = some result ∧
        Accounted result ∧
        Touches state result handle := by
  have live : (state.xs (some handle)).isPtr = true →
      ∃ block, state.heap (state.xs (some handle)).ptr = some block := by
    intro isPtr
    obtain ⟨_, block, backed⟩ := accounted.backed handle isPtr
    exact ⟨block, backed.live⟩
  obtain ⟨result, freed, dropped, spares, _, emptied, _⟩ := free_ledger live
  refine ⟨result, freed, accounted.of_touches spares.touches ?_ ?_, spares.touches⟩
  · rw [dropped]
    exact accounted.exact.drop handle
  · intro isPtr
    rw [emptied, inline_literalEmpty.1.not_isPtr] at isPtr
    simp at isPtr

/-- `xs_copy` into an unused handle keeps the counts exact. -/
theorem Accounted.copy
    (accounted : Accounted state)
    {source dest : Handle}
    (unused : (state.xs (some dest)).isPtr = false) :
    ∃ result,
      xsCopy state (some source) (some dest) = some result ∧
        Accounted result ∧
        Touches state result dest := by
  have nothing : (ledger state).holds dest = none := Xs.held_of_not_isPtr unused
  have others : ∀ other, other ≠ dest →
      (state.assign (some dest) (state.xs (some source))).xs (some other) =
        state.xs (some other) :=
    fun other different => state.assign_other (by simpa using different)
  cases isPtr : (state.xs (some source)).isPtr with
  | false =>
      have touches : Touches state (state.assign (some dest) (state.xs (some source))) dest :=
        ⟨others, (Spares.refl state dest).touches.lengths⟩
      refine ⟨state.assign (some dest) (state.xs (some source)), by simp [xsCopy, isPtr],
        accounted.of_touches touches ?_ ?_, touches⟩
      · have shared : ledger (state.assign (some dest) (state.xs (some source))) =
            (ledger state).share source dest := by
          have source_nothing : (ledger state).holds source = none := Xs.held_of_not_isPtr isPtr
          rw [ledger_assign]
          simp only [Ledger.share, source_nothing]
          rw [Xs.held_of_not_isPtr isPtr]
        rw [shared]
        exact accounted.exact.share nothing
      · intro destPtr
        rw [State.assign_same, isPtr] at destPtr
        simp at destPtr
  | true =>
      obtain ⟨exponent, block, backed⟩ := accounted.backed source isPtr
      have own : (ledger state).holds source = some (state.xs (some source)).ptr :=
        Xs.held_of_isPtr isPtr
      have counted : (ledger state).count (state.xs (some source)).ptr = some block.refcnt := by
        simp [ledger, backed.live]
      let result := (state.assign (some dest) (state.xs (some source))).setBlock
        (state.xs (some source)).ptr (some { block with refcnt := block.refcnt + 1 })
      have touches : Touches state result dest := by
        refine ⟨others, ?_⟩
        intro used former latter formerLive latterLive
        by_cases same : used = (state.xs (some source)).ptr
        · rw [same, backed.live] at formerLive
          rw [same, State.setBlock_same] at latterLive
          rw [← Option.some.inj formerLive, ← Option.some.inj latterLive]
        · rw [State.setBlock_other _ same] at latterLive
          exact (Spares.refl state dest).touches.lengths used former latter formerLive latterLive
      refine ⟨result, ?_, accounted.of_touches touches ?_ ?_, touches⟩
      · simp only [xsCopy, State.assign_same, isPtr, if_true, State.assign_heap, backed.live,
          Option.bind_eq_bind, Option.bind_some]
        rfl
      · have shared : ledger result = (ledger state).share source dest := by
          rw [ledger_setBlock, ledger_assign]
          simp only [Ledger.share, own, counted, Option.map_some]
          rw [Xs.held_of_isPtr isPtr]
        rw [shared]
        exact accounted.exact.share nothing
      · intro _
        refine ⟨exponent, { block with refcnt := block.refcnt + 1 }, ?_⟩
        have sameXs : result.xs (some dest) = state.xs (some source) := State.assign_same _
        rw [sameXs]
        exact { backed with live := State.setBlock_same _ _ _ }

/-- A handle that took a new buffer fits it and is counted. -/
theorem Accounted.moved
    {result : State Handle}
    {address exponent : Nat}
    {block : Block}
    (accounted : Accounted state)
    (touches : Touches state result handle)
    (free : state.heap address = none)
    (moved : ledger result = ((ledger state).drop handle).create handle address)
    (backed : Backed result.heap (result.xs (some handle)) exponent block) :
    Accounted result := by
  refine accounted.of_touches touches ?_ fun _ => ⟨exponent, block, backed⟩
  rw [moved]
  exact accounted.exact.move handle (by simp [ledger, free])

/-- A handle without a buffer takes another value without one. -/
theorem Accounted.assign_inline
    {x : Xs}
    (accounted : Accounted state)
    (unused : (state.xs (some handle)).isPtr = false)
    (notPtr : x.isPtr = false) :
    Accounted (state.assign (some handle) x) ∧
      Touches state (state.assign (some handle) x) handle := by
  have touches : Touches state (state.assign (some handle) x) handle :=
    ⟨fun other different => state.assign_other (by simpa using different),
      (Spares.refl state handle).touches.lengths⟩
  refine ⟨accounted.of_touches touches ?_ ?_, touches⟩
  · have nothing : (ledger state).holds handle = x.held := by
      rw [Xs.held_of_not_isPtr notPtr]
      exact Xs.held_of_not_isPtr unused
    rw [ledger_assign, ← nothing, Function.update_eq_self]
    exact accounted.exact
  · intro isPtr
    rw [State.assign_same, notPtr] at isPtr
    simp at isPtr

/-- `xs_new` into an unused handle keeps the counts exact. -/
theorem Accounted.new
    {allocation : Allocation}
    (accounted : Accounted state)
    (unused : (state.xs (some handle)).isPtr = false)
    (p : CString)
    (short : p.bytes.length < 2 ^ 32 - 1)
    (fresh : Fresh state allocation) :
    ∃ result,
      xsNew state (some handle) p allocation = some result ∧
        Accounted result ∧
        Touches state result handle := by
  by_cases long : 15 < p.bytes.length
  · obtain ⟨atLeast, atMost, room⟩ :=
      ilog2_spec (show 15 < p.bytes.length + 1 by omega) (by omega)
    obtain ⟨x, onHeap, size, created⟩ := @new_long_eq _ _ state handle _ _ long short fresh.fits
    generalize ilog2 (p.bytes.length + 1) + 1 = exponent at atLeast atMost room onHeap created
    let block : Block :=
      { refcnt := 1
        data := ByteMemory.write allocation.garbage 0 (p.bytes ++ [0])
        length := 2 ^ exponent + 7 }
    let result := (state.setBlock allocation.address (some block)).assign (some handle) x
    have touches : Touches state result handle := by
      refine ⟨fun other different => State.assign_other _ (by simpa using different), ?_⟩
      intro used former latter formerLive latterLive
      have apart : used ≠ allocation.address := by
        rintro rfl
        rw [fresh.free] at formerLive
        simp at formerLive
      rw [State.assign_heap, State.setBlock_other _ apart] at latterLive
      rw [Option.some.inj (formerLive.symm.trans latterLive)]
    have backed : Backed result.heap (result.xs (some handle)) exponent block := by
      have sameXs : result.xs (some handle) = x := State.assign_same _
      rw [sameXs]
      refine ⟨by rw [onHeap.ptr]; exact onHeap, atLeast, atMost, by omega, ?_, rfl⟩
      rw [onHeap.ptr]
      exact State.setBlock_same _ _ _
    refine ⟨result, created, accounted.moved touches fresh.free ?_ backed, touches⟩
    have nothing : (ledger state).holds handle = none := Xs.held_of_not_isPtr unused
    rw [Ledger.drop_of_none _ nothing, ledger_assign, ledger_setBlock,
      Xs.held_of_isPtr onHeap.isPtr, onHeap.ptr]
    rfl
  · have short' : p.bytes.length ≤ 15 := Nat.le_of_not_lt long
    have inPlace := inlineString_new short'
    exact ⟨_, new_short_eq short', accounted.assign_inline unused inPlace.inline.not_isPtr⟩

/-- A handle leaves its buffer for the one prepared in the local variable. -/
theorem Prepared.adopt_ledger
    {result : State Handle}
    {address exponent : Nat}
    {block : Block}
    (prepared : Prepared state result address exponent block)
    (accounted : Accounted state)
    (free : state.heap address = none)
    (handle : Handle) :
    ∃ freed,
      xsFree result (some handle) = some freed ∧
        ledger (freed.assign (some handle) (freed.xs none)) =
          ((ledger state).drop handle).create handle address ∧
        Spares state (freed.assign (some handle) (freed.xs none)) handle ∧
        freed.xs none = result.xs none ∧
        freed.heap address = some block := by
  have apart : ∀ {other}, (ledger state).holds other ≠ some address := by
    intro other holds
    obtain ⟨count, counted⟩ := accounted.exact.counted holds
    simp [ledger, free] at counted
  have prepared_ledger : ledger result =
      { ledger state with
        count := Function.update (ledger state).count address (some 1) } := by
    ext used : 2
    · simp only [ledger, prepared.handles]
    · by_cases same : used = address
      · simp [ledger, same, prepared.live, prepared.single]
      · simp [ledger, same, prepared.heap used same]
  have live : (result.xs (some handle)).isPtr = true →
      ∃ block, result.heap (result.xs (some handle)).ptr = some block := by
    rw [prepared.handles]
    intro isPtr
    obtain ⟨_, own, backed⟩ := accounted.backed handle isPtr
    refine ⟨own, ?_⟩
    rw [prepared.heap]
    · exact backed.live
    · intro same
      exact apart (show (ledger state).holds handle = _ by rw [← same]; exact Xs.held_of_isPtr isPtr)
  obtain ⟨freed, returned, dropped, spares, slots, _, elsewhere⟩ := free_ledger live
  have local' : freed.xs none = result.xs none := slots none (by simp)
  have held : (freed.xs none).held = some address := by
    rw [local', Xs.held_of_isPtr prepared.onHeap.isPtr, prepared.onHeap.ptr]
  have kept : freed.heap address = some block := by
    rw [elsewhere address, prepared.live]
    rw [prepared_ledger]
    exact apart
  refine ⟨freed, returned, ?_, ⟨?_, ?_⟩, local', kept⟩
  · rw [ledger_assign, dropped, prepared_ledger, Ledger.drop_update _ apart, held]
    rfl
  · intro other different
    rw [State.assign_other _ (by simpa using different), spares.others other different,
      prepared.handles]
  · intro used former latter formerLive latterLive
    have different : used ≠ address := by
      rintro rfl
      rw [free] at formerLive
      simp at formerLive
    exact spares.blocks used former latter (by rw [prepared.heap used different]; exact formerLive)
      latterLive

/-- The handle then fits the prepared buffer and is counted. -/
theorem Prepared.adopt_counts
    {result : State Handle}
    {address exponent : Nat}
    {block : Block}
    (prepared : Prepared state result address exponent block)
    (accounted : Accounted state)
    (free : state.heap address = none)
    (atLeast : 5 ≤ exponent)
    (atMost : exponent ≤ 32)
    (handle : Handle) :
    ∃ freed,
      xsFree result (some handle) = some freed ∧
        Accounted (freed.assign (some handle) (freed.xs none)) ∧
        Spares state (freed.assign (some handle) (freed.xs none)) handle ∧
        OnHeap (freed.xs none) address exponent ∧
        freed.heap address = some block := by
  obtain ⟨freed, returned, moved, spares, local', live⟩ :=
    prepared.adopt_ledger accounted free handle
  have onHeap : OnHeap (freed.xs none) address exponent := by
    rw [local']
    exact prepared.onHeap
  have backed : Backed (freed.assign (some handle) (freed.xs none)).heap
      ((freed.assign (some handle) (freed.xs none)).xs (some handle)) exponent block := by
    rw [State.assign_same]
    refine ⟨by rw [onHeap.ptr]; exact onHeap, atLeast, atMost, ?_, ?_, prepared.length⟩
    · rw [local', prepared.unsized]
      exact Nat.two_pow_pos exponent
    · rw [onHeap.ptr]
      exact live
  exact ⟨freed, returned, accounted.moved spares.touches free moved backed, spares, onHeap, live⟩

/-! ## Copy-on-write -/

omit [DecidableEq Handle] in
/-- An address that `malloc` may return belongs to no handle. -/
theorem Accounted.detached
    {address : Nat}
    (accounted : Accounted state)
    (free : state.heap address = none) :
    Detached state address := by
  intro other refers
  obtain ⟨count, counted⟩ :=
    accounted.exact.counted (show (ledger state).holds other = _ from Xs.held_eq_some.mpr refers)
  simp [ledger, free] at counted

omit [DecidableEq Handle] in
/-- Every handle has room for 15 bytes. -/
theorem Accounted.capacity_ge
    (accounted : Accounted state)
    (handle : Handle) :
    15 ≤ xsCapacity (state.xs (some handle)) := by
  cases isPtr : (state.xs (some handle)).isPtr with
  | false =>
      simp [xsCapacity, isPtr]
  | true =>
      obtain ⟨exponent, block, backed⟩ := accounted.backed handle isPtr
      have wide := Nat.pow_le_pow_right (show 0 < 2 by decide) backed.atLeast
      rw [backed.onHeap.xsCapacity_eq]
      omega

omit [DecidableEq Handle] in
/-- No handle has room for `2 ^ 32` bytes. -/
theorem Accounted.capacity_lt
    (accounted : Accounted state)
    (handle : Handle) :
    xsCapacity (state.xs (some handle)) < 2 ^ 32 := by
  cases isPtr : (state.xs (some handle)).isPtr with
  | false =>
      simp [xsCapacity, isPtr]
  | true =>
      obtain ⟨exponent, block, backed⟩ := accounted.backed handle isPtr
      have narrow := Nat.pow_le_pow_right (show 0 < 2 by decide) backed.atMost
      have positive := Nat.two_pow_pos exponent
      rw [backed.onHeap.xsCapacity_eq]
      omega

omit [DecidableEq Handle] in
/-- What can be read and written at the data of a handle. -/
theorem Accounted.extent
    (accounted : Accounted state)
    (handle : Handle) :
    ∃ limit,
      state.extent (xsData state (some handle)) = some limit ∧
        xsCapacity (state.xs (some handle)) + 1 ≤ limit ∧
        xsSize (state.xs (some handle)) ≤ xsCapacity (state.xs (some handle)) := by
  cases isPtr : (state.xs (some handle)).isPtr with
  | false =>
      refine ⟨16, by simp [xsData, isPtr, State.extent], ?_, ?_⟩
      · simp [xsCapacity, isPtr]
      · simp only [xsSize, xsCapacity, isPtr, Bool.false_eq_true, if_false]
        omega
  | true =>
      obtain ⟨exponent, block, backed⟩ := accounted.backed handle isPtr
      have positive := Nat.two_pow_pos exponent
      have length := backed.length
      have sized := backed.sized
      refine ⟨block.length, by simp [xsData, isPtr, State.extent, backed.live], ?_, ?_⟩
      · rw [backed.onHeap.xsCapacity_eq]
        omega
      · rw [backed.onHeap.xsCapacity_eq, backed.onHeap.xsSize_eq]
        omega

/-- What `xs_cow` leaves: the handle shares its buffer with no other one. -/
structure Cowed (before after : State Handle) (handle : Handle) : Prop where
  accounted : Accounted after
  spares : Spares before after handle
  isPtr : (after.xs (some handle)).isPtr = (before.xs (some handle)).isPtr
  capacity : xsCapacity (after.xs (some handle)) = xsCapacity (before.xs (some handle))
  alone :
    ∀ address other,
      (after.xs (some handle)).held = some address →
      other ≠ handle →
      (after.xs (some other)).held ≠ some address
  unshared :
    ∀ count, refcountGet before (some handle) = some count → ¬ 1 < count → after = before
  former :
    ∀ other,
      after.extent (xsData before (some other)) = before.extent (xsData before (some other))
  copied :
    ∀ bytes,
      before.read (xsData before (some handle)) 0 (xsSize (before.xs (some handle)) + 1) =
        some bytes →
      after.read (xsData after (some handle)) 0 bytes.length = some bytes

omit [DecidableEq Handle] in
/-- A handle that is no pointer counts as one reference. -/
theorem refcountGet_inline
    {slot : Option Handle}
    (notPtr : (state.xs slot).isPtr = false) :
    refcountGet state slot = some 1 := by
  simp [refcountGet, notPtr]

omit [DecidableEq Handle] in
/-- A handle that shares nothing is as `xs_cow` leaves it. -/
private theorem cowed_refl
    (accounted : Accounted state)
    (alone :
      ∀ address other,
        (state.xs (some handle)).held = some address →
        other ≠ handle →
        (state.xs (some other)).held ≠ some address) :
    Cowed state state handle where
  accounted := accounted
  spares := Spares.refl state handle
  isPtr := rfl
  capacity := rfl
  alone := alone
  unshared := fun _ _ _ => rfl
  former := fun _ => rfl
  copied := by
    intro bytes readable
    obtain ⟨limit, extent, room, small⟩ := accounted.extent handle
    obtain ⟨again, same, length⟩ :=
      read_within extent (show 0 + (xsSize (state.xs (some handle)) + 1) ≤ limit by omega)
    obtain rfl := Option.some.inj (readable.symm.trans same)
    rw [length]
    exact readable

omit [DecidableEq Handle] in
/-- Whoever refers to a buffer, some other handle than this one keeps it alive. -/
private theorem extent_former
    {result : State Handle}
    {address : Nat}
    (accounted : Accounted state)
    (resultAccounted : Accounted result)
    (spares : Spares state result handle)
    (held : (ledger state).holds handle = some address)
    (several : ∃ other, other ≠ handle ∧ (ledger state).holds other = some address)
    (other : Handle) :
    result.extent (xsData state (some other)) = state.extent (xsData state (some other)) := by
  cases otherPtr : (state.xs (some other)).isPtr with
  | false =>
      simp [xsData, otherPtr, State.extent]
  | true =>
      obtain ⟨_, former, backed⟩ := accounted.backed other otherPtr
      have refers : (ledger state).holds other = some (state.xs (some other)).ptr :=
        Xs.held_of_isPtr otherPtr
      have keeper : ∃ keeper, keeper ≠ handle ∧
          (ledger state).holds keeper = some (state.xs (some other)).ptr := by
        by_cases same : other = handle
        · rw [← refers, same, held]
          exact several
        · exact ⟨other, same, refers⟩
      obtain ⟨keeper, different, holds⟩ := keeper
      have stillHolds : (ledger result).holds keeper = some (state.xs (some other)).ptr := by
        rw [← holds]
        exact congrArg Xs.held (spares.others keeper different)
      obtain ⟨count, counted⟩ := resultAccounted.exact.counted stillHolds
      obtain ⟨latter, latterLive, _⟩ := Option.map_eq_some_iff.mp counted
      have same := spares.touches.lengths _ former latter backed.live latterLive
      simp [xsData, otherPtr, State.extent, backed.live, latterLive, same]

/-- The copy that `xs_cow` makes of a shared buffer. -/
private theorem cow_copy
    {exponent : Nat}
    {block : Block}
    {allocation : Allocation}
    (accounted : Accounted state)
    (fresh : Fresh state allocation)
    (backed : Backed state.heap (state.xs (some handle)) exponent block)
    (shared : 1 < block.refcnt) :
    ∃ result, xsCow state (some handle) allocation = some result ∧ Cowed state result handle := by
  have isPtr := backed.onHeap.isPtr
  have held : (ledger state).holds handle = some (state.xs (some handle)).ptr :=
    Xs.held_of_isPtr isPtr
  have detached := accounted.detached fresh.free
  have narrow : 2 ^ exponent ≤ 2 ^ 32 := Nat.pow_le_pow_right (by decide) backed.atMost
  have wide : 2 ^ 5 ≤ 2 ^ exponent := Nat.pow_le_pow_right (by decide) backed.atLeast
  have capacity := backed.onHeap.xsCapacity_eq
  obtain ⟨limit, extent, room, small⟩ := accounted.extent handle
  rw [capacity] at room small
  obtain ⟨grown, fill, grew, prepared⟩ :=
    grow_prepared fresh (show 15 < 2 ^ exponent - 1 by omega) (by omega)
  rw [ilog2_capacity (by have := backed.atLeast; omega) backed.atMost] at prepared
  obtain ⟨bytes, copied, length⟩ :=
    read_within extent (show 0 + (xsSize (state.xs (some handle)) + 1) ≤ limit by omega)
  obtain ⟨filled, wrote, ready⟩ :=
    @Prepared.write _ _ _ _ _ _ _ 0 bytes prepared (by omega)
  obtain ⟨freed, released, resultAccounted, spares, freedOnHeap, freedLive⟩ :=
    ready.adopt_counts accounted fresh.free backed.atLeast backed.atMost handle
  generalize resultEq : freed.assign (some handle) (freed.xs none) = result
    at resultAccounted spares
  have onHeap : OnHeap (result.xs (some handle)) allocation.address exponent := by
    rw [← resultEq, State.assign_same]
    exact freedOnHeap
  have live : result.heap allocation.address =
      some { fill with data := ByteMemory.write fill.data 0 bytes } := by
    rw [← resultEq]
    exact freedLive
  refine ⟨result, ?_, resultAccounted, spares, ?_, ?_, ?_, ?_, ?_, ?_⟩
  · have handleKept : (state.assign none Xs.literalEmpty).xs (some handle) =
        state.xs (some handle) := State.assign_other _ (by simp)
    have grownData : xsData grown (some handle) = xsData state (some handle) := by
      rw [xsData, prepared.handles, xsData]
    have grownRead : grown.read (xsData grown (some handle)) 0
        (xsSize (grown.xs (some handle)) + 1) = some bytes := by
      rw [grownData, prepared.handles, prepared.read_handle detached]
      exact copied
    simp only [xsCow, refcountGet, isPtr, if_true, backed.live, Option.map_some,
      Option.bind_eq_bind, Option.bind_some, if_pos shared, handleKept, capacity, grew, grownRead,
      prepared.xsData_eq, wrote, released, ← resultEq]
    rfl
  · rw [onHeap.isPtr, isPtr]
  · rw [onHeap.xsCapacity_eq, capacity]
  · intro address other holds different otherHolds
    rw [Xs.held_of_isPtr onHeap.isPtr, onHeap.ptr] at holds
    rw [spares.others other different, ← holds] at otherHolds
    exact detached other (Xs.held_eq_some.mp otherHolds)
  · intro count counted unshared
    simp only [refcountGet, isPtr, if_true, backed.live, Option.map_some,
      Option.some.injEq] at counted
    omega
  · have several := (accounted.exact.shared_iff held (by simp [ledger, backed.live])).mp shared
    exact extent_former accounted resultAccounted spares held several
  · intro again readable
    obtain rfl : bytes = again := Option.some.inj (copied.symm.trans readable)
    have place : xsData result (some handle) = .block allocation.address := by
      rw [xsData, if_pos onHeap.isPtr, onHeap.ptr]
    have fillLength := prepared.length
    rw [place]
    simp only [State.read, live]
    rw [if_pos (by omega), read_write]

/-- `xs_cow` keeps the counts exact and leaves the handle alone with its bytes. -/
theorem Accounted.cow
    {allocation : Allocation}
    (accounted : Accounted state)
    (handle : Handle)
    (fresh : Fresh state allocation) :
    ∃ result, xsCow state (some handle) allocation = some result ∧ Cowed state result handle := by
  cases isPtr : (state.xs (some handle)).isPtr with
  | false =>
      refine ⟨state, by simp [xsCow, refcountGet, isPtr], cowed_refl accounted ?_⟩
      intro address other holds
      rw [Xs.held_of_not_isPtr isPtr] at holds
      simp at holds
  | true =>
      obtain ⟨exponent, block, backed⟩ := accounted.backed handle isPtr
      by_cases shared : 1 < block.refcnt
      · exact cow_copy accounted fresh backed shared
      · refine ⟨state, ?_, cowed_refl accounted ?_⟩
        · simp only [xsCow, refcountGet, isPtr, if_true, backed.live, Option.map_some,
            Option.bind_eq_bind, Option.bind_some, if_neg shared]
          rfl
        · intro address other holds different otherHolds
          have own : (ledger state).holds handle = some address := holds
          rw [Xs.held_of_isPtr isPtr] at holds
          obtain rfl := Option.some.inj holds
          exact shared ((accounted.exact.shared_iff own (by simp [ledger, backed.live])).mpr
            ⟨other, different, otherHolds⟩)

end Operations

end Sysprog.Xstring
