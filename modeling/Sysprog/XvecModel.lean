import Sysprog.ByteMemory
import Sysprog.Execution

namespace Sysprog.Xvec

open ByteMemory

/-!
# The small-buffer vector of `xvector/`

A vector is one union: a word of bit fields, and behind it either the heap
pointer or the inline buffer.  The model keeps the bytes behind the bit fields
as they are in memory, so that storing the pointer overwrites the first inline
bytes, and it keeps the widths of the bit fields.

The functions of `xvec.c` see the inline buffer as a `char buf[]` right behind
the bit fields, at byte 8.  The declaration macro `v` places `t buf[...]` at the
first offset behind them that suits the alignment of `t`.  Both offsets are in
the model.
-/

/-- The two ways `xvec.h` is compiled. -/
inductive Build where
  /-- `-DPOW_FACTOR=1.5`, as in the Makefile. -/
  | powFactor
  /-- `POW_FACTOR` undefined. -/
  | plain
  deriving Repr, DecidableEq

/-- What the vector code depends on of an element type: `sizeof` and `_Alignof`. -/
structure ElementType where
  size : Nat
  alignment : Nat
  sizePositive : 0 < size
  alignmentPower : alignment.isPowerOfTwo
  alignmentDivides : alignment ∣ size

/-- `__builtin_clzl` of a nonzero word. -/
def clzl (word : Nat) : Nat :=
  63 - word.log2

/-- `ilog2` of `xvec.c`: the exponent of the least power of two not below `n`. -/
def ilog2 (n : Nat) : Nat :=
  64 - clzl n - (if n &&& (n - 1) = 0 then 1 else 0)

/--
`(size_t)(1 << n)`.  The shift is one of `int`: its count is taken modulo 32 and
the result is sign-extended, as x86-64 evaluates it.
-/
def shiftOne (n : Nat) : Nat :=
  if n % 32 = 31 then 2 ^ 64 - 2 ^ 31 else 2 ^ (n % 32)

/-- The macro `to_capacity`; with `POW_FACTOR` it is `4 * ceil(1.5 ^ n)`. -/
def toCapacity : Build → Nat → Nat
  | .powFactor, n => (3 ^ n + 2 ^ n - 1) / 2 ^ n * 4
  | .plain, n => shiftOne n

/-- The macro `STACK_SIZE`. -/
def stackSize : Build → Nat → Nat
  | .powFactor, _ => 4
  | .plain, s => if s &&& (s - 1) = 0 then s else 2 ^ (64 - clzl s)

/-- `expand_capacity`: the exponent of the first heap buffer. -/
def expandCapacity : Build → Nat → Nat
  | .powFactor, _ => 1
  | .plain, capacity => ilog2 capacity + 1

/-- One use of the declaration macro `v(t, s, name, ...)`. -/
structure Decl where
  build : Build
  element : ElementType
  /-- The stack size `s`. -/
  declared : Nat
  /-- The bytes of each initializer. -/
  initial : List (List UInt8)
  declaredPositive : 1 ≤ declared
  initialSized : ∀ value ∈ initial, value.length = element.size
  initialFits : initial.length ≤ stackSize build declared

namespace Decl

/-- Number of slots of the inline buffer. -/
def slots (decl : Decl) : Nat :=
  stackSize decl.build decl.declared

/-- Offset of `t buf[...]` in the union: behind the bit fields, suitably aligned. -/
def bufOffset (decl : Decl) : Nat :=
  max 8 decl.element.alignment

end Decl

/--
The vector object and the memory it points to.

`body` holds the bytes of the union from offset 8 on, which are `ptr` and the
`char buf[]` the functions use.  `allocated` is the byte count `malloc` was last
asked for; the code itself does not store it.
-/
structure Vec where
  size : Nat
  onHeap : Bool
  capacity : Nat
  body : Memory
  heap : Memory
  allocated : Nat

/-- What `malloc` or `realloc` answers: an address, and unspecified contents. -/
structure Allocation where
  address : Nat
  contents : Memory
  addressable : address < 2 ^ 64

namespace Vec

/-- The field `ptr`, read from the bytes it shares with the inline buffer. -/
def ptr (vector : Vec) : Nat :=
  decode (read vector.body 0 8)

/-- Memory and start address of the elements: `v->on_heap ? v->ptr : v->buf`. -/
def memory (vector : Vec) : Memory :=
  if vector.onHeap then vector.heap else vector.body

def base (vector : Vec) : Nat :=
  if vector.onHeap then vector.ptr else 0

/-- Replace the memory that holds the elements. -/
def setMemory (vector : Vec) (memory : Memory) : Vec :=
  if vector.onHeap then
    { vector with heap := memory }
  else
    { vector with body := memory }

variable {vector : Vec} {replacement : Memory}

@[simp] theorem setMemory_onHeap :
    (vector.setMemory replacement).onHeap = vector.onHeap := by
  unfold setMemory
  split <;> rfl

@[simp] theorem setMemory_capacity :
    (vector.setMemory replacement).capacity = vector.capacity := by
  unfold setMemory
  split <;> rfl

@[simp] theorem setMemory_allocated :
    (vector.setMemory replacement).allocated = vector.allocated := by
  unfold setMemory
  split <;> rfl

end Vec

/-- The object after its declaration; `surroundings` are the bytes C leaves unspecified. -/
def declare (decl : Decl) (surroundings heap : Memory) : Vec where
  size := decl.initial.length
  onHeap := false
  capacity := decl.slots % 2 ^ 6
  body :=
    write
      (write surroundings (decl.bufOffset - 8)
        (List.replicate (decl.slots * decl.element.size) 0))
      (decl.bufOffset - 8) decl.initial.flatten
  heap := heap
  allocated := 0

/-- The macro `vec_capacity`. -/
def vecCapacity (decl : Decl) (vector : Vec) : Nat :=
  if vector.onHeap then toCapacity decl.build vector.capacity else decl.slots

/-- The bytes where the functions have element `n`. -/
def elementBytes (decl : Decl) (vector : Vec) (n : Nat) : List UInt8 :=
  slot vector.memory vector.base decl.element.size n

/--
The elements lie where a pointer to their type may point.  The vector itself does, so
its inline buffer is aligned as byte 8 is.
-/
def Aligned (decl : Decl) (vector : Vec) : Prop :=
  decl.element.alignment ∣ if vector.onHeap then vector.ptr else 8

instance (decl : Decl) (vector : Vec) : Decidable (Aligned decl vector) :=
  inferInstanceAs (Decidable (_ ∣ _))

/--
The bytes of the element the macro `vec_pos` designates; `none` where its assertion
fails or its pointer to an element is not aligned.
-/
def vecPos (decl : Decl) (vector : Vec) (n : Nat) : Option (List UInt8) :=
  if n < vector.size ∧ Aligned decl vector then some (elementBytes decl vector n) else none

/--
`v->ptr = realloc(v->ptr, bytes)` with the new exponent already stored: the old
contents up to the smaller size move along, the rest of the block is unspecified.
-/
def reallocate
    (vector : Vec)
    (exponent bytes : Nat)
    (allocation : Allocation) : Vec :=
  let kept := read vector.heap vector.ptr (min vector.allocated bytes)
  { vector with
    capacity := exponent
    heap :=
      write
        (write vector.heap allocation.address (read allocation.contents 0 bytes))
        allocation.address kept
    body := write vector.body 0 (encode 8 allocation.address)
    allocated := bytes }

/--
`tmp = malloc(bytes); memcpy(tmp, v->buf, elemsize * v->size); v->ptr = tmp;
v->on_heap = 1` with the new exponent already stored.
-/
def moveToHeap
    (decl : Decl)
    (vector : Vec)
    (exponent bytes : Nat)
    (allocation : Allocation) : Vec :=
  let saved := read vector.body 0 (decl.element.size * vector.size % 2 ^ 64)
  { vector with
    onHeap := true
    capacity := exponent
    heap :=
      write
        (write vector.heap allocation.address (read allocation.contents 0 bytes))
        allocation.address saved
    body := write vector.body 0 (encode 8 allocation.address)
    allocated := bytes }

/-- `__vec_reserve`; the macro passes the current `vec_capacity`. -/
def vecReserve
    (decl : Decl)
    (vector : Vec)
    (n : Nat)
    (allocation : Allocation) : Vec :=
  if vecCapacity decl vector < n then
    let exponent := ilog2 n % 2 ^ 6
    let bytes := decl.element.size * 2 ^ exponent % 2 ^ 64
    if vector.onHeap then
      reallocate vector exponent bytes allocation
    else
      moveToHeap decl vector exponent bytes allocation
  else
    vector

/--
The growth code `__vec_push_back` and `__vec_insert` share: a full heap buffer is
reallocated one exponent up, a full inline buffer moves to the heap.
-/
def growIfFull
    (decl : Decl)
    (vector : Vec)
    (allocation : Allocation) : Vec :=
  if vector.size = vecCapacity decl vector then
    if vector.onHeap then
      let exponent := (vector.capacity + 1) % 2 ^ 6
      reallocate vector exponent
        (decl.element.size * toCapacity decl.build exponent % 2 ^ 64) allocation
    else
      let exponent := expandCapacity decl.build (vecCapacity decl vector) % 2 ^ 6
      moveToHeap decl vector exponent
        (decl.element.size * toCapacity decl.build exponent % 2 ^ 64) allocation
  else
    vector

/-- `__vec_push_back`. -/
def vecPushBack
    (decl : Decl)
    (vector : Vec)
    (element : List UInt8)
    (allocation : Allocation) : Vec :=
  let grown := growIfFull decl vector allocation
  let stored :=
    grown.setMemory
      (write grown.memory (grown.base + grown.size * decl.element.size) element)
  { stored with size := (grown.size + 1) % 2 ^ 54 }

/-- `__vec_insert`; `none` when its assertion fails. -/
def vecInsert
    (decl : Decl)
    (vector : Vec)
    (index : Nat)
    (element : List UInt8)
    (allocation : Allocation) : Option Vec :=
  if index < vector.size then
    let grown := growIfFull decl vector allocation
    let width := decl.element.size
    let shifted :=
      move grown.memory (grown.base + (index + 1) * width)
        (grown.base + index * width) ((grown.size - index) * width)
    let stored :=
      grown.setMemory (write shifted (grown.base + index * width) element)
    some { stored with size := (grown.size + 1) % 2 ^ 54 }
  else
    none

/-- `__vec_erase`; `none` when its assertion fails. -/
def vecErase
    (decl : Decl)
    (vector : Vec)
    (index : Nat) : Option Vec :=
  if index < vector.size then
    let width := decl.element.size
    let shifted :=
      vector.setMemory
        (move vector.memory (vector.base + index * width)
          (vector.base + (index + 1) * width) ((vector.size - index) * width))
    some { shifted with size := vector.size - 1 }
  else
    none

/-- The macro `vec_pop_back`. -/
def vecPopBack (vector : Vec) : Vec :=
  { vector with size := vector.size - (if vector.size = 0 then 0 else 1) }

/-- One call on a vector, with what the allocator answers should it be asked. -/
inductive Op where
  | pushBack (element : List UInt8) (allocation : Allocation)
  | insert (index : Nat) (element : List UInt8) (allocation : Allocation)
  | erase (index : Nat)
  | popBack
  | reserve (n : Nat) (allocation : Allocation)

namespace Op

/-- The element operand of a call has the size of the element type. -/
def Sized (width : Nat) : Op → Prop
  | .pushBack element _ => element.length = width
  | .insert _ element _ => element.length = width
  | .erase _ => True
  | .popBack => True
  | .reserve n _ => n < 2 ^ 64

end Op

/-- Run one call; `none` when an assertion aborts the program. -/
def perform (decl : Decl) (vector : Vec) : Op → Option Vec
  | .pushBack element allocation => some (vecPushBack decl vector element allocation)
  | .insert index element allocation => vecInsert decl vector index element allocation
  | .erase index => vecErase decl vector index
  | .popBack => some (vecPopBack vector)
  | .reserve n allocation => some (vecReserve decl vector n allocation)

/-- A well-typed call that returns. -/
def Step (decl : Decl) (before : Vec) (op : Op) (after : Vec) : Prop :=
  op.Sized decl.element.size ∧ perform decl before op = some after

/-- Number of elements the vector's buffer has room for. -/
def allocatedElements (decl : Decl) (vector : Vec) : Nat :=
  if vector.onHeap then vector.allocated / decl.element.size else decl.slots

end Sysprog.Xvec
