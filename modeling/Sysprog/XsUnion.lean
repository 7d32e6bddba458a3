import Sysprog.XsModel

namespace Sysprog.Xstring

open ByteMemory

/-!
# The overlapping fields of a handle

The last byte of a handle is the top byte of the word with the bit-fields, so every
flag can be read off that word.  Each assignment is described by the word and the
pointer it leaves.
-/

namespace Xs

variable (x : Xs)

/-- The word is made of its seven low bytes and the last byte. -/
private theorem word_split :
    x.word = decode (read x.data 8 7) + 2 ^ 56 * (x.data 15).toNat := by
  have parts : read x.data 8 8 = read x.data 8 7 ++ [x.data 15] :=
    read_add 7 1
  rw [word, parts, decode_append, length_read]
  simp [decode]

/-- The seven low bytes of the word. -/
private theorem low_lt : decode (read x.data 8 7) < 2 ^ 56 := by
  have bound := decode_lt (read x.data 8 7)
  rw [length_read] at bound
  exact bound

theorem word_lt : x.word < 2 ^ 64 := by
  have bound := decode_lt (read x.data 8 8)
  rw [length_read] at bound
  exact bound

/-- The last byte is the top of the word. -/
theorem lastByte_eq : (x.data 15).toNat = x.word / 2 ^ 56 := by
  have low := x.low_lt
  rw [word_split]
  omega

/-- The pointer flag is bit 60 of the word. -/
theorem isPtr_eq : x.isPtr = decide (x.word / 2 ^ 60 % 2 = 1) := by
  rw [isPtr, lastByte_eq, show 2 ^ 60 = 2 ^ 56 * 16 by decide, Nat.div_div_eq_div_mul]

/-- The free space is in bits 56 to 59 of the word. -/
theorem spaceLeft_eq : x.spaceLeft = x.word / 2 ^ 56 % 16 := by
  rw [spaceLeft, lastByte_eq]

/-- Writing the last byte exchanges the top of the word. -/
private theorem word_writeLast (value : Nat) :
    (Xs.mk (write x.data 15 [UInt8.ofNat value])).word =
      x.word % 2 ^ 56 + 2 ^ 56 * (value % 256) := by
  have low := x.low_lt
  have sameLow : read (write x.data 15 [UInt8.ofNat value]) 8 7 = read x.data 8 7 :=
    read_write_disjoint (Or.inl (by decide))
  have byte : write x.data 15 [UInt8.ofNat value] 15 = UInt8.ofNat value := rfl
  rw [word_split, word_split x]
  simp only [sameLow, byte, UInt8.toNat_ofNat']
  omega

theorem word_setSpaceLeft (value : Nat) :
    (x.setSpaceLeft value).word =
      x.word / 2 ^ 60 * 2 ^ 60 + value % 16 * 2 ^ 56 + x.word % 2 ^ 56 := by
  have bound := x.word_lt
  rw [setSpaceLeft, word_writeLast, lastByte_eq]
  omega

/-- The pointer flag is not part of the free space. -/
theorem isPtr_setSpaceLeft (value : Nat) : (x.setSpaceLeft value).isPtr = x.isPtr := by
  have top : (x.setSpaceLeft value).word / 2 ^ 60 = x.word / 2 ^ 60 := by
    rw [word_setSpaceLeft]
    omega
  rw [isPtr_eq, isPtr_eq, top]

/-- The free space is what was assigned, in its four bits. -/
theorem spaceLeft_setSpaceLeft (value : Nat) : (x.setSpaceLeft value).spaceLeft = value % 16 := by
  rw [spaceLeft_eq, word_setSpaceLeft]
  omega

theorem word_setIsPtr :
    x.setIsPtr.word = x.word / 2 ^ 61 * 2 ^ 61 + 2 ^ 60 + x.word % 2 ^ 60 := by
  have bound := x.word_lt
  rw [setIsPtr, word_writeLast, lastByte_eq]
  omega

/-- The word after it was written as a whole. -/
private theorem word_writeWord
    {value : Nat}
    (fits : value < 2 ^ 64) :
    (Xs.mk (write x.data 8 (encode 8 value))).word = value := by
  rw [word]
  simp only
  rw [read_write_of_length (length_encode 8 value), decode_encode_of_lt fits]

theorem word_setSize (value : Nat) :
    (x.setSize value).word = x.word / 2 ^ 54 * 2 ^ 54 + value % 2 ^ 54 := by
  have bound := x.word_lt
  exact x.word_writeWord (by omega)

/-- The capacity is not part of the size. -/
theorem capacity_setSize (value : Nat) : (x.setSize value).capacity = x.capacity := by
  have top : (x.setSize value).word / 2 ^ 54 = x.word / 2 ^ 54 := by
    rw [word_setSize]
    omega
  rw [capacity, top, capacity]

/-- The size is what was assigned, in its 54 bits. -/
theorem size_setSize (value : Nat) : (x.setSize value).size = value % 2 ^ 54 := by
  rw [size, word_setSize]
  omega

/-- The pointer flag is not part of the size. -/
theorem isPtr_setSize (value : Nat) : (x.setSize value).isPtr = x.isPtr := by
  have top : (x.setSize value).word / 2 ^ 60 = x.word / 2 ^ 60 := by
    rw [word_setSize]
    omega
  rw [isPtr_eq, isPtr_eq, top]

theorem word_setCapacity (value : Nat) :
    (x.setCapacity value).word =
      x.word / 2 ^ 60 * 2 ^ 60 + value % 2 ^ 6 * 2 ^ 54 + x.word % 2 ^ 54 := by
  have bound := x.word_lt
  exact x.word_writeWord (by omega)

@[simp] theorem word_setPtr (value : Nat) : (x.setPtr value).word = x.word := by
  rw [word, setPtr]
  simp only
  rw [read_write_disjoint (Or.inr (by simp)), word]

theorem ptr_setPtr
    {value : Nat}
    (fits : value < 2 ^ 64) :
    (x.setPtr value).ptr = value := by
  rw [ptr, setPtr]
  simp only
  rw [read_write_of_length (length_encode 8 value), decode_encode_of_lt fits]

/-- A write behind the pointer keeps it. -/
private theorem ptr_writeBehind
    {address : Nat}
    {bytes : List UInt8}
    (behind : 8 ≤ address) :
    (Xs.mk (write x.data address bytes)).ptr = x.ptr := by
  rw [ptr, ptr]
  simp only
  rw [read_write_disjoint (Or.inl (by omega))]

@[simp] theorem ptr_setIsPtr : x.setIsPtr.ptr = x.ptr :=
  x.ptr_writeBehind (by decide)

@[simp] theorem ptr_setSize (value : Nat) : (x.setSize value).ptr = x.ptr :=
  x.ptr_writeBehind (by decide)

@[simp] theorem ptr_setCapacity (value : Nat) : (x.setCapacity value).ptr = x.ptr :=
  x.ptr_writeBehind (by decide)

theorem word_literalEmpty : literalEmpty.word = 15 * 2 ^ 56 := by
  decide

end Xs

/-! ## The two representations -/

/-- A short string: the flags are clear and the free space is within bounds. -/
structure Inline (x : Xs) : Prop where
  flags : x.word < 2 ^ 60

/-- A handle to the buffer `address` with room for `2 ^ exponent` bytes. -/
structure OnHeap (x : Xs) (address exponent : Nat) : Prop where
  flagged : 2 ^ 60 ≤ x.word
  flags : x.word < 2 ^ 61
  ptr : x.ptr = address
  capacity : x.capacity = exponent

namespace Inline

variable {x : Xs}

theorem not_isPtr (inline : Inline x) : x.isPtr = false := by
  have flags := inline.flags
  rw [x.isPtr_eq]
  simp only [decide_eq_false_iff_not]
  omega

theorem xsSize_eq (inline : Inline x) : xsSize x = 15 - x.spaceLeft := by
  rw [xsSize, inline.not_isPtr]
  rfl

theorem xsCapacity_eq (inline : Inline x) : xsCapacity x = 15 := by
  rw [xsCapacity, inline.not_isPtr]
  rfl

/-- Only the last byte decides. -/
theorem of_lastByte (flags : (x.data 15).toNat < 16) : Inline x := by
  rw [x.lastByte_eq] at flags
  exact ⟨by omega⟩

theorem lastByte_lt (inline : Inline x) : (x.data 15).toNat < 16 := by
  have flags := inline.flags
  rw [x.lastByte_eq]
  omega

/-- A terminated string written from the start leaves the flags clear. -/
theorem write_string
    {string : List UInt8}
    (inline : Inline x)
    (short : string.length ≤ 15) :
    Inline { data := write x.data 0 (string ++ [0]) } := by
  apply of_lastByte
  simp only
  by_cases full : string.length = 15
  · have last : write x.data 0 (string ++ [0]) 15 = 0 := by
      simp [write, full]
    rw [last]
    decide
  · rw [write_outside (Or.inr (by simp; omega))]
    exact inline.lastByte_lt

/-- Setting the free space of a short string. -/
theorem setSpaceLeft (inline : Inline x) (value : Nat) :
    Inline (x.setSpaceLeft value) ∧ (x.setSpaceLeft value).spaceLeft = value % 16 := by
  have flags := inline.flags
  refine ⟨⟨?_⟩, ?_⟩
  · rw [x.word_setSpaceLeft]
    omega
  · exact x.spaceLeft_setSpaceLeft value

end Inline

namespace OnHeap

variable {x : Xs} {address exponent : Nat}

theorem isPtr (onHeap : OnHeap x address exponent) : x.isPtr = true := by
  have flagged := onHeap.flagged
  have flags := onHeap.flags
  rw [x.isPtr_eq]
  simp only [decide_eq_true_eq]
  omega

theorem xsSize_eq (onHeap : OnHeap x address exponent) : xsSize x = x.size := by
  rw [xsSize, onHeap.isPtr]
  rfl

theorem xsCapacity_eq (onHeap : OnHeap x address exponent) :
    xsCapacity x = 2 ^ exponent - 1 := by
  rw [xsCapacity, onHeap.isPtr, onHeap.capacity]
  rfl

/-- Setting the size keeps the representation. -/
theorem setSize (onHeap : OnHeap x address exponent) {value : Nat} (fits : value < 2 ^ 54) :
    OnHeap (x.setSize value) address exponent ∧ (x.setSize value).size = value := by
  obtain ⟨flagged, flags, ptr, capacity⟩ := onHeap
  rw [Xs.capacity] at capacity
  refine ⟨⟨?_, ?_, ?_, ?_⟩, ?_⟩
  · rw [x.word_setSize]
    omega
  · rw [x.word_setSize]
    omega
  · rw [x.ptr_setSize, ptr]
  · rw [x.capacity_setSize, Xs.capacity, capacity]
  · rw [x.size_setSize, Nat.mod_eq_of_lt fits]

/-- Setting the pointer keeps the rest of the representation. -/
theorem setPtr
    {fresh : Nat}
    (onHeap : OnHeap x address exponent)
    (fits : fresh < 2 ^ 64) :
    OnHeap (x.setPtr fresh) fresh exponent ∧ (x.setPtr fresh).size = x.size := by
  obtain ⟨flagged, flags, _, capacity⟩ := onHeap
  refine ⟨⟨?_, ?_, Xs.ptr_setPtr _ fits, ?_⟩, ?_⟩
  · rw [Xs.word_setPtr]
    exact flagged
  · rw [Xs.word_setPtr]
    exact flags
  · rw [Xs.capacity, Xs.word_setPtr]
    exact capacity
  · rw [Xs.size, Xs.word_setPtr, Xs.size]

end OnHeap

/-- The empty literal is a short string with all its space free. -/
theorem inline_literalEmpty : Inline Xs.literalEmpty ∧ Xs.literalEmpty.spaceLeft = 15 := by
  refine ⟨⟨?_⟩, ?_⟩
  · rw [Xs.word_literalEmpty]
    decide
  · rw [Xs.spaceLeft_eq, Xs.word_literalEmpty]
    decide

/-- The handle that `xs_grow` leaves. -/
def regrown (x : Xs) (address exponent : Nat) : Xs :=
  ((x.setPtr address).setIsPtr).setCapacity exponent

/-- `xs_grow` sets all fields of a handle but the size. -/
theorem onHeap_regrown
    {x : Xs}
    {address exponent : Nat}
    (flags : x.word < 2 ^ 61)
    (addressFits : address < 2 ^ 64)
    (exponentFits : exponent < 2 ^ 6) :
    OnHeap (regrown x address exponent) address exponent ∧
      (regrown x address exponent).size = x.size := by
  have word : (regrown x address exponent).word =
      2 ^ 60 + exponent * 2 ^ 54 + x.word % 2 ^ 54 := by
    rw [regrown, Xs.word_setCapacity, Xs.word_setIsPtr, Xs.word_setPtr]
    omega
  refine ⟨⟨?_, ?_, ?_, ?_⟩, ?_⟩
  · rw [word]
    omega
  · rw [word]
    omega
  · rw [regrown, Xs.ptr_setCapacity, Xs.ptr_setIsPtr, Xs.ptr_setPtr _ addressFits]
  · rw [Xs.capacity, word]
    omega
  · rw [Xs.size, word, Xs.size]
    omega

/-- What `xs_new` makes of an empty handle for a long string. -/
theorem onHeap_new
    {address exponent size : Nat}
    (addressFits : address < 2 ^ 64)
    (exponentFits : exponent < 2 ^ 6)
    (sizeFits : size < 2 ^ 54) :
    let x := ((Xs.literalEmpty.setCapacity exponent).setSize size).setIsPtr
    x.capacity = exponent ∧
      OnHeap (x.setPtr address) address exponent ∧
      (x.setPtr address).size = size := by
  have word : (((Xs.literalEmpty.setCapacity exponent).setSize size).setIsPtr).word =
      2 ^ 60 + exponent * 2 ^ 54 + size := by
    rw [Xs.word_setIsPtr, Xs.word_setSize, Xs.word_setCapacity, Xs.word_literalEmpty]
    omega
  refine ⟨?_, ⟨?_, ?_, Xs.ptr_setPtr _ addressFits, ?_⟩, ?_⟩
  · rw [Xs.capacity, word]
    omega
  · rw [Xs.word_setPtr, word]
    omega
  · rw [Xs.word_setPtr, word]
    omega
  · rw [Xs.capacity, Xs.word_setPtr, word]
    omega
  · rw [Xs.size, Xs.word_setPtr, word]
    omega

end Sysprog.Xstring
