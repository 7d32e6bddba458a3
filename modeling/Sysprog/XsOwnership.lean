import Sysprog.XsUnion

namespace Sysprog.Xstring

open ByteMemory CStrings

/-!
# Which handle holds which string

Every handle stores its string in place or in a live buffer, and the count of a
buffer is the number of handles that refer to it.  Buffers that no handle refers to
may be filled freely; they are how new strings are prepared.
-/

variable {Handle : Type}

/-! ## Frame rules of the state -/

namespace State

variable (state : State Handle)

@[simp] theorem setBlock_xs (address : Nat) (block : Option Block) :
    (state.setBlock address block).xs = state.xs :=
  rfl

@[simp] theorem setBlock_same (address : Nat) (block : Option Block) :
    (state.setBlock address block).heap address = block := by
  simp [setBlock]

theorem setBlock_other {address different : Nat} (apart : different ≠ address)
    (block : Option Block) :
    (state.setBlock address block).heap different = state.heap different := by
  simp [setBlock, Function.update_of_ne apart]

@[simp] theorem setBlock_setBlock (address : Nat) (first second : Option Block) :
    (state.setBlock address first).setBlock address second =
      state.setBlock address second := by
  simp [setBlock]

variable [DecidableEq Handle] {slot other : Option Handle} {x : Xs}

@[simp] theorem assign_same : (state.assign slot x).xs slot = x := by
  simp [assign]

theorem assign_other (different : other ≠ slot) :
    (state.assign slot x).xs other = state.xs other := by
  simp [assign, Function.update_of_ne different]

@[simp] theorem assign_heap : (state.assign slot x).heap = state.heap :=
  rfl

@[simp] theorem assign_assign (first second : Xs) :
    (state.assign slot first).assign slot second = state.assign slot second := by
  simp [assign]

theorem setBlock_assign (address : Nat) (block : Option Block) :
    (state.setBlock address block).assign slot x =
      (state.assign slot x).setBlock address block :=
  rfl

end State

/-! ## Strings -/

/-- A handle that holds a string in place. -/
structure InlineString (x : Xs) (string : List UInt8) : Prop where
  inline : Inline x
  length : string.length + x.spaceLeft = 15
  bytes : ByteMemory.read x.data 0 (string.length + 1) = string ++ [0]

/-- A handle that holds a string in a buffer. -/
structure HeapString
    (heap : Heap)
    (x : Xs)
    (string : List UInt8)
    (address exponent : Nat)
    (block : Block) : Prop where
  onHeap : OnHeap x address exponent
  atLeast : 5 ≤ exponent
  atMost : exponent ≤ 32
  size : x.size = string.length
  fits : string.length < 2 ^ exponent
  live : heap address = some block
  length : block.length = 2 ^ exponent + 7
  bytes : ByteMemory.read block.data 0 (string.length + 1) = string ++ [0]

/-- A handle holds a string in one of the two ways. -/
def Stores (heap : Heap) (x : Xs) (string : List UInt8) : Prop :=
  InlineString x string ∨
    ∃ address exponent block, HeapString heap x string address exponent block

/-- A handle refers to a buffer. -/
def Refers (state : State Handle) (handle : Handle) (address : Nat) : Prop :=
  (state.xs (some handle)).isPtr = true ∧ (state.xs (some handle)).ptr = address

/-- No handle refers to the buffer. -/
def Detached (state : State Handle) (address : Nat) : Prop :=
  ∀ handle, ¬ Refers state handle address

/-- Every handle holds its string, and every buffer in use counts its handles. -/
structure Valid (state : State Handle) (contents : Handle → List UInt8) : Prop where
  strings : ∀ handle, Stores state.heap (state.xs (some handle)) (contents handle)
  counts :
    ∀ handle address,
      Refers state handle address →
      ∃ block owners,
        state.heap address = some block ∧
          (∀ other, other ∈ owners ↔ Refers state other address) ∧
          block.refcnt = Finset.card owners

namespace Stores

variable {heap : Heap} {x : Xs} {string : List UInt8}

/-- A handle is inline exactly when its string is in place. -/
theorem inlineString
    (stores : Stores heap x string)
    (notPtr : x.isPtr = false) :
    InlineString x string := by
  rcases stores with inPlace | ⟨address, exponent, block, onHeap⟩
  · exact inPlace
  · rw [onHeap.onHeap.isPtr] at notPtr
    simp at notPtr

/-- A pointer handle has its string in its buffer. -/
theorem heapString
    (stores : Stores heap x string)
    (isPtr : x.isPtr = true) :
    ∃ exponent block, HeapString heap x string x.ptr exponent block := by
  rcases stores with inPlace | ⟨address, exponent, block, onHeap⟩
  · rw [inPlace.inline.not_isPtr] at isPtr
    simp at isPtr
  · rw [onHeap.onHeap.ptr]
    exact ⟨exponent, block, onHeap⟩

/-- What a handle needs of the heap is its own buffer, whatever its count. -/
theorem congr
    {other : Heap}
    (stores : Stores heap x string)
    (same :
      x.isPtr = true →
      ∀ block,
        heap x.ptr = some block →
        ∃ count, other x.ptr = some { block with refcnt := count }) :
    Stores other x string := by
  rcases stores with inPlace | ⟨address, exponent, block, onHeap⟩
  · exact Or.inl inPlace
  · right
    have sameBlock := same onHeap.onHeap.isPtr block
    rw [onHeap.onHeap.ptr] at sameBlock
    obtain ⟨count, live⟩ := sameBlock onHeap.live
    exact ⟨address, exponent, _, { onHeap with live := live }⟩

end Stores

namespace InlineString

variable {x : Xs} {string : List UInt8}

theorem xsSize_eq (inPlace : InlineString x string) : xsSize x = string.length := by
  have length := inPlace.length
  rw [inPlace.inline.xsSize_eq]
  omega

end InlineString

namespace HeapString

variable
  {heap : Heap}
  {x : Xs}
  {string : List UInt8}
  {address exponent : Nat}
  {block : Block}

theorem xsSize_eq (onHeap : HeapString heap x string address exponent block) :
    xsSize x = string.length := by
  rw [onHeap.onHeap.xsSize_eq, onHeap.size]

end HeapString

section Observations

variable
  {state : State Handle}
  {slot : Option Handle}
  {string : List UInt8}

/-- `xs_data` of a handle that holds a string points to it and its terminator. -/
theorem Stores.read_xsData
    (stores : Stores state.heap (state.xs slot) string) :
    state.read (xsData state slot) 0 (string.length + 1) = some (string ++ [0]) := by
  rcases stores with inPlace | ⟨address, exponent, block, onHeap⟩
  · have length := inPlace.length
    rw [xsData, if_neg (by rw [inPlace.inline.not_isPtr]; decide)]
    simp only [State.read]
    rw [if_pos (by omega), inPlace.bytes]
  · have fits := onHeap.fits
    have length := onHeap.length
    rw [xsData, if_pos onHeap.onHeap.isPtr, onHeap.onHeap.ptr]
    simp only [State.read, onHeap.live]
    rw [if_pos (by omega), onHeap.bytes]

/-- `xs_size` of a handle that holds a string is its length. -/
theorem Stores.xsSize_eq
    {heap : Heap}
    {x : Xs}
    (stores : Stores heap x string) :
    xsSize x = string.length := by
  rcases stores with inPlace | ⟨address, exponent, block, onHeap⟩
  · exact inPlace.xsSize_eq
  · exact onHeap.xsSize_eq

/-- What `xs_size` and `xs_data` of a handle say when it holds a string. -/
structure Holds (state : State Handle) (handle : Handle) (string : List UInt8) : Prop where
  size : xsSize (state.xs (some handle)) = string.length
  bytes :
    state.read (xsData state (some handle)) 0 (string.length + 1) = some (string ++ [0])

/-- In a valid state every handle holds its string. -/
theorem Valid.holds
    {contents : Handle → List UInt8}
    (valid : Valid state contents)
    (handle : Handle) :
    Holds state handle (contents handle) where
  size := (valid.strings handle).xsSize_eq
  bytes := (valid.strings handle).read_xsData

/-- `xs_size` never exceeds `xs_capacity`. -/
theorem Stores.size_le_capacity
    {heap : Heap}
    {x : Xs}
    (stores : Stores heap x string) :
    xsSize x ≤ xsCapacity x := by
  rw [stores.xsSize_eq]
  rcases stores with inPlace | ⟨address, exponent, block, onHeap⟩
  · have length := inPlace.length
    rw [inPlace.inline.xsCapacity_eq]
    omega
  · have fits := onHeap.fits
    rw [onHeap.onHeap.xsCapacity_eq]
    omega

/-- No representation has room for `2 ^ 32` bytes. -/
theorem Stores.capacity_lt
    {heap : Heap}
    {x : Xs}
    (stores : Stores heap x string) :
    xsCapacity x < 2 ^ 32 := by
  rcases stores with inPlace | ⟨address, exponent, block, onHeap⟩
  · rw [inPlace.inline.xsCapacity_eq]
    decide
  · have narrow := Nat.pow_le_pow_right (show 0 < 2 by decide) onHeap.atMost
    have positive := Nat.two_pow_pos exponent
    rw [onHeap.onHeap.xsCapacity_eq]
    omega

/-- Every representation has room for 15 bytes. -/
theorem Stores.capacity_ge
    {heap : Heap}
    {x : Xs}
    (stores : Stores heap x string) :
    15 ≤ xsCapacity x := by
  rcases stores with inPlace | ⟨address, exponent, block, onHeap⟩
  · rw [inPlace.inline.xsCapacity_eq]
  · have wide := Nat.pow_le_pow_right (show 0 < 2 by decide) onHeap.atLeast
    rw [onHeap.onHeap.xsCapacity_eq]
    omega

end Observations

/-! ## Rules for changing the state -/

section Rules

variable
  {state : State Handle}
  {contents : Handle → List UInt8}
  {handle : Handle}
  {address exponent : Nat}
  {block : Block}
  {x : Xs}
  {string : List UInt8}

/-- An address `malloc` may return is not in use. -/
theorem Valid.detached_of_free
    (valid : Valid state contents)
    (free : state.heap address = none) :
    Detached state address := by
  intro other refers
  obtain ⟨block, _, live, _⟩ := valid.counts other address refers
  rw [free] at live
  simp at live

/-- Strings depend on the handles and the buffers they refer to. -/
theorem Valid.transfer
    {result : State Handle}
    (valid : Valid state contents)
    (handles : ∀ other, result.xs (some other) = state.xs (some other))
    (heap : ∀ other used, Refers state other used → result.heap used = state.heap used) :
    Valid result contents := by
  refine ⟨?_, ?_⟩
  · intro other
    rw [handles]
    refine (valid.strings other).congr ?_
    intro isPtr own live
    exact ⟨own.refcnt, by rw [heap other _ ⟨isPtr, rfl⟩]; exact live⟩
  · intro other used refers
    simp only [Refers, handles] at refers ⊢
    rw [heap other used refers]
    exact valid.counts other used refers

/-- Changing a buffer nobody refers to changes no string. -/
theorem Valid.setBlock
    (valid : Valid state contents)
    (detached : Detached state address)
    (block : Option Block) :
    Valid (state.setBlock address block) contents := by
  refine valid.transfer (fun _ => rfl) ?_
  intro other used refers
  apply state.setBlock_other
  rintro rfl
  exact detached other refers

variable [DecidableEq Handle]

theorem refers_assign_same {used : Nat} :
    Refers (state.assign (some handle) x) handle used ↔ x.isPtr = true ∧ x.ptr = used := by
  simp [Refers]

theorem refers_assign_other
    {other : Handle}
    {used : Nat}
    (different : other ≠ handle) :
    Refers (state.assign (some handle) x) other used ↔ Refers state other used := by
  rw [Refers, state.assign_other (by simpa using different), Refers]

/-- The strings of the other handles after an assignment. -/
private theorem strings_assign
    (valid : Valid state contents)
    (stores : Stores state.heap x string)
    (other : Handle) :
    Stores (state.assign (some handle) x).heap ((state.assign (some handle) x).xs (some other))
      (Function.update contents handle string other) := by
  by_cases same : other = handle
  · subst same
    rw [state.assign_same, Function.update_self]
    exact stores
  · rw [state.assign_other (by simpa using same), Function.update_of_ne same]
    exact valid.strings other

/-- An unused handle may take a string in place. -/
theorem Valid.assign_inline
    (valid : Valid state contents)
    (unused : (state.xs (some handle)).isPtr = false)
    (inPlace : InlineString x string) :
    Valid (state.assign (some handle) x) (Function.update contents handle string) := by
  refine ⟨strings_assign valid (Or.inl inPlace), ?_⟩
  have noPtr := inPlace.inline.not_isPtr
  have sameRefers : ∀ other used,
      Refers (state.assign (some handle) x) other used ↔ Refers state other used := by
    intro other used
    by_cases same : other = handle
    · subst same
      simp [noPtr, Refers, unused]
    · exact refers_assign_other same
  intro other used refers
  obtain ⟨own, owners, live, members, count⟩ :=
    valid.counts other used ((sameRefers other used).mp refers)
  refine ⟨own, owners, live, ?_, count⟩
  intro another
  rw [members another, sameRefers]

/-- An unused handle may take over a prepared buffer. -/
theorem Valid.assign_block
    (valid : Valid state contents)
    (unused : (state.xs (some handle)).isPtr = false)
    (detached : Detached state address)
    (onHeap : HeapString state.heap x string address exponent block)
    (single : block.refcnt = 1) :
    Valid (state.assign (some handle) x) (Function.update contents handle string) := by
  refine ⟨strings_assign valid (Or.inr ⟨address, exponent, block, onHeap⟩), ?_⟩
  have ownRefers : ∀ used,
      Refers (state.assign (some handle) x) handle used ↔ used = address := by
    intro used
    rw [refers_assign_same, onHeap.onHeap.ptr, onHeap.onHeap.isPtr]
    simp [eq_comm]
  intro other used refers
  by_cases atBlock : used = address
  · subst atBlock
    refine ⟨block, {handle}, onHeap.live, ?_, by simpa using single⟩
    intro another
    by_cases same : another = handle
    · subst same
      simp [ownRefers]
    · rw [refers_assign_other same]
      simp [same, detached another]
  · have different : other ≠ handle := by
      rintro rfl
      exact atBlock ((ownRefers used).mp refers)
    obtain ⟨own, owners, live, members, count⟩ :=
      valid.counts other used ((refers_assign_other different).mp refers)
    refine ⟨own, owners, live, ?_, count⟩
    intro another
    rw [members another]
    by_cases same : another = handle
    · subst same
      rw [ownRefers]
      simp [Refers, unused, atBlock]
    · rw [refers_assign_other same]

end Rules

end Sysprog.Xstring
