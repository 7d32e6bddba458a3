import Mathlib.Data.Finset.Card
import Mathlib.Data.List.DropRight
import Sysprog.ByteMemory
import Sysprog.CStrings
import Sysprog.Execution
import Sysprog.MachineWord

namespace Sysprog.Xstring

open ByteMemory CStrings Execution MachineWord

/-!
# The small-string library of `xstring/`

A handle is a 16-byte union: a short string with its free space in the last byte, or
a pointer to a reference-counted buffer with size and capacity packed in bit-fields.
Operations are partial: `none` stands for an access outside of a buffer, to a freed
buffer, or a failed assertion.
-/

/-! ## The union -/

/-- The sixteen bytes of a handle. -/
structure Xs where
  data : Memory

namespace Xs

/-- The bit-field `space_left`, the low half of the last byte. -/
def spaceLeft (x : Xs) : Nat :=
  (x.data 15).toNat % 16

/-- The bit-field `is_ptr`, the next bit of the last byte. -/
def isPtr (x : Xs) : Bool :=
  (x.data 15).toNat / 16 % 2 = 1

/-- The field `ptr`. -/
def ptr (x : Xs) : Nat :=
  decode (read x.data 0 8)

/-- The word that holds the bit-fields `size` and `capacity`. -/
def word (x : Xs) : Nat :=
  decode (read x.data 8 8)

/-- The bit-field `size` of 54 bits. -/
def size (x : Xs) : Nat :=
  x.word % 2 ^ 54

/-- The bit-field `capacity` of 6 bits. -/
def capacity (x : Xs) : Nat :=
  x.word / 2 ^ 54 % 2 ^ 6

/-- The assignment `x->space_left = value`. -/
def setSpaceLeft (x : Xs) (value : Nat) : Xs :=
  { data := write x.data 15 [UInt8.ofNat ((x.data 15).toNat / 16 * 16 + value % 16)] }

/-- The assignment `x->is_ptr = true`. -/
def setIsPtr (x : Xs) : Xs :=
  { data :=
      write x.data 15
        [UInt8.ofNat ((x.data 15).toNat / 32 * 32 + 16 + (x.data 15).toNat % 16)] }

/-- The assignment `x->ptr = value`. -/
def setPtr (x : Xs) (value : Nat) : Xs :=
  { data := write x.data 0 (encode 8 value) }

/-- The assignment `x->size = value`. -/
def setSize (x : Xs) (value : Nat) : Xs :=
  { data := write x.data 8 (encode 8 (x.word / 2 ^ 54 * 2 ^ 54 + value % 2 ^ 54)) }

/-- The assignment `x->capacity = value`. -/
def setCapacity (x : Xs) (value : Nat) : Xs :=
  { data :=
      write x.data 8
        (encode 8
          (x.word / 2 ^ 60 * 2 ^ 60 + value % 2 ^ 6 * 2 ^ 54 + x.word % 2 ^ 54)) }

/-- The macro `xs_literal_empty`. -/
def literalEmpty : Xs :=
  { data := fun index => if index = 15 then 15 else 0 }

end Xs

/-- `xs_size`. -/
def xsSize (x : Xs) : Nat :=
  if x.isPtr then x.size else 15 - x.spaceLeft

/-- `xs_capacity`. -/
def xsCapacity (x : Xs) : Nat :=
  if x.isPtr then 2 ^ x.capacity - 1 else 15

/-- `ilog2`, on a `uint32_t`. -/
def ilog2 (n : Nat) : Nat :=
  Nat.log2 (n % 2 ^ 32)

/-! ## Memory -/

/--
A `RefCounted` buffer with the number of bytes from `data` to its end.  The count is
a plain number: memory has room for fewer handles than a `size_t` can count.
-/
structure Block where
  refcnt : Nat
  data : Memory
  length : Nat

/-- The buffers by the address of their `data`. -/
abbrev Heap := Nat → Option Block

/-- What `malloc` returns: the address of `data` in the new block, and what it holds. -/
structure Allocation where
  address : Nat
  garbage : Memory

/--
All handles and buffers.  `none` is the local variable `tmps` of the functions that
have one.
-/
structure State (Handle : Type) where
  xs : Option Handle → Xs
  heap : Heap

/-- What a `char *` points into. -/
inductive Place (Handle : Type) where
  | inline (slot : Option Handle)
  | block (address : Nat)
deriving DecidableEq

variable {Handle : Type} [DecidableEq Handle]

namespace State

/-- Assign a whole handle. -/
def assign (state : State Handle) (slot : Option Handle) (x : Xs) : State Handle :=
  { state with xs := Function.update state.xs slot x }

/-- Replace a buffer, or free it. -/
def setBlock (state : State Handle) (address : Nat) (block : Option Block) : State Handle :=
  { state with heap := Function.update state.heap address block }

/-- Read bytes, within the bounds of what is pointed into. -/
def read (state : State Handle) (place : Place Handle) (offset length : Nat) :
    Option (List UInt8) :=
  match place with
  | .inline slot =>
      if offset + length ≤ 16 then
        some (ByteMemory.read (state.xs slot).data offset length)
      else
        none
  | .block address =>
      match state.heap address with
      | none => none
      | some block =>
          if offset + length ≤ block.length then
            some (ByteMemory.read block.data offset length)
          else
            none

/-- Write bytes, within the bounds of what is pointed into. -/
def write (state : State Handle) (place : Place Handle) (offset : Nat) (bytes : List UInt8) :
    Option (State Handle) :=
  match place with
  | .inline slot =>
      if offset + bytes.length ≤ 16 then
        some (state.assign slot { data := ByteMemory.write (state.xs slot).data offset bytes })
      else
        none
  | .block address =>
      match state.heap address with
      | none => none
      | some block =>
          if offset + bytes.length ≤ block.length then
            some
              (state.setBlock address
                (some { block with data := ByteMemory.write block.data offset bytes }))
          else
            none

/--
`memcpy`, which is undefined where the two ranges share a byte.  Copies to memory that is
new cannot share one and are written as a read and a write, as every `memmove` is.
-/
def memcpy
    (state : State Handle)
    (dest : Place Handle)
    (destOffset : Nat)
    (src : Place Handle)
    (srcOffset n : Nat) : Option (State Handle) :=
  if dest = src ∧ destOffset < srcOffset + n ∧ srcOffset < destOffset + n then
    none
  else do
    let bytes ← state.read src srcOffset n
    state.write dest destOffset bytes

end State

/-- `xs_data`. -/
def xsData (state : State Handle) (slot : Option Handle) : Place Handle :=
  if (state.xs slot).isPtr then .block (state.xs slot).ptr else .inline slot

/-! ## Reference counts -/

/-- `refcount_create`: `malloc(sizeof(RefCounted) + size - 1)` with a count of one. -/
def refcountCreate (state : State Handle) (size : Nat) (allocation : Allocation) :
    State Handle :=
  state.setBlock allocation.address
    (some { refcnt := 1, data := allocation.garbage, length := size + 7 })

/-- `refcount_get`. -/
def refcountGet (state : State Handle) (slot : Option Handle) : Option Nat :=
  if (state.xs slot).isPtr then
    (state.heap (state.xs slot).ptr).map Block.refcnt
  else
    some 1

/-- `refcount_realloc`. -/
def refcountRealloc
    (state : State Handle)
    (slot : Option Handle)
    (size : Nat)
    (allocation : Allocation) : Option (State Handle) := do
  let count ← refcountGet state slot
  if count ≠ 1 then
    none
  else
    let source := (state.xs slot).ptr
    let state := refcountCreate state size allocation
    let bytes ← state.read (.block source) 0 ((state.xs slot).size + 1)
    let state ← state.write (.block allocation.address) 0 bytes
    return state.setBlock source none

/-- `xs_free`. -/
def xsFree (state : State Handle) (slot : Option Handle) : Option (State Handle) := do
  if (state.xs slot).isPtr then
    let address := (state.xs slot).ptr
    let block ← state.heap address
    let state :=
      if block.refcnt - 1 = 0 then
        state.setBlock address none
      else
        state.setBlock address (some { block with refcnt := block.refcnt - 1 })
    return state.assign slot Xs.literalEmpty
  else
    return state.assign slot Xs.literalEmpty

/-! ## The operations -/

/-- `xs_new`. -/
def xsNew
    (state : State Handle)
    (slot : Option Handle)
    (p : CString)
    (allocation : Allocation) : Option (State Handle) :=
  let x := Xs.literalEmpty
  let len := p.bytes.length + 1
  if len > 16 then
    let x := x.setCapacity (ilog2 len + 1)
    let x := x.setSize (len - 1)
    let x := x.setIsPtr
    let state := refcountCreate state (2 ^ x.capacity) allocation
    let state := state.assign slot (x.setPtr allocation.address)
    state.write (.block (state.xs slot).ptr) 0 (p.bytes ++ [0])
  else do
    let state := state.assign slot x
    let state ← state.write (.inline slot) 0 (p.bytes ++ [0])
    return state.assign slot ((state.xs slot).setSpaceLeft (15 - (len - 1)))

/-- `xs_grow`. -/
def xsGrow
    (state : State Handle)
    (slot : Option Handle)
    (len : Nat)
    (allocation : Allocation) : Option (State Handle) :=
  if len ≤ xsCapacity (state.xs slot) then
    some state
  else do
    let exponent := ilog2 len + 1
    let state ←
      if (state.xs slot).isPtr then
        refcountRealloc state slot (2 ^ exponent) allocation
      else
        let buf := ByteMemory.read (state.xs slot).data 0 16
        (refcountCreate state (2 ^ exponent) allocation).write (.block allocation.address) 0 buf
    let x := ((state.xs slot).setPtr allocation.address).setIsPtr
    return state.assign slot (x.setCapacity exponent)

/-- `xs_cow`. -/
def xsCow (state : State Handle) (slot : Option Handle) (allocation : Allocation) :
    Option (State Handle) := do
  let count ← refcountGet state slot
  if 1 < count then
    let state := state.assign none Xs.literalEmpty
    let state ← xsGrow state none (xsCapacity (state.xs slot)) allocation
    let bytes ← state.read (xsData state slot) 0 (xsSize (state.xs slot) + 1)
    let state ← state.write (xsData state none) 0 bytes
    let state ← xsFree state slot
    return state.assign slot (state.xs none)
  else
    return state

/-- Set the size in whichever representation the handle has. -/
def setLength (state : State Handle) (slot : Option Handle) (length : Nat) : State Handle :=
  if (state.xs slot).isPtr then
    state.assign slot ((state.xs slot).setSize length)
  else
    state.assign slot ((state.xs slot).setSpaceLeft (15 - length))

/-- `xs_concat`. -/
def xsConcat
    (state : State Handle)
    (string former latter : Option Handle)
    (allocation : Allocation) : Option (State Handle) := do
  let pres := xsSize (state.xs former)
  let sufs := xsSize (state.xs latter)
  let size := xsSize (state.xs string)
  let capacity := xsCapacity (state.xs string)
  let pre := xsData state former
  let suf := xsData state latter
  let data := xsData state string
  if size + pres + sufs ≤ capacity then
    let state ← xsCow state string allocation
    let data := xsData state string
    let moved ← state.read data 0 size
    let state ← state.write data pres moved
    let state ← state.memcpy data 0 pre 0 pres
    let state ← state.memcpy data (pres + size) suf 0 (sufs + 1)
    return setLength state string (size + pres + sufs)
  else
    let state := state.assign none Xs.literalEmpty
    let state ← xsGrow state none (size + pres + sufs) allocation
    let tmpdata := xsData state none
    let moved ← state.read data 0 size
    let state ← state.write tmpdata pres moved
    let front ← state.read pre 0 pres
    let state ← state.write tmpdata 0 front
    let back ← state.read suf 0 (sufs + 1)
    let state ← state.write tmpdata (pres + size) back
    let state ← xsFree state string
    let state := state.assign string (state.xs none)
    return setLength state string (size + pres + sufs)

/-- The macro `check_bit`. -/
def checkBit (mask : Nat → Nat) (byte : UInt8) : Bool :=
  mask (byte.toNat / 8) &&& 1 <<< (byte.toNat % 8) ≠ 0

/-- The macro `set_bit`. -/
def setBit (mask : Nat → Nat) (byte : UInt8) : Nat → Nat :=
  Function.update mask (byte.toNat / 8) (mask (byte.toNat / 8) ||| 1 <<< (byte.toNat % 8))

/-- The loop of `xs_trim` from the front: the number of leading bytes in the set. -/
def skipFront (mask : Nat → Nat) : List UInt8 → Nat
  | [] => 0
  | byte :: rest => if checkBit mask byte then skipFront mask rest + 1 else 0

/-- The loop of `xs_trim` from the back: the length without trailing bytes in the set. -/
def skipBack (mask : Nat → Nat) (bytes : List UInt8) : Nat → Nat
  | 0 => 0
  | slen + 1 =>
      if checkBit mask (bytes.getD slen 0) then skipBack mask bytes slen else slen + 1

/-- `xs_trim`. -/
def xsTrim
    (state : State Handle)
    (slot : Option Handle)
    (trimset : CString)
    (allocation : Allocation) : Option (State Handle) :=
  if trimset.bytes = [] then
    some state
  else do
    let dataptr := xsData state slot
    let mask := trimset.bytes.foldl setBit fun _ => 0
    let bytes ← state.read dataptr 0 (xsSize (state.xs slot))
    let i := skipFront mask bytes
    let slen := sub (skipBack mask bytes (xsSize (state.xs slot))) i
    let state ← xsCow state slot allocation
    let orig := xsData state slot
    let moved ← state.read dataptr i slen
    let state ← state.write orig 0 moved
    let last ← state.read orig slen 1
    let state ← if last ≠ [0] then state.write orig slen [0] else some state
    return setLength state slot slen

/-- `xs_copy`, with copy-on-write. -/
def xsCopy (state : State Handle) (src dest : Option Handle) : Option (State Handle) := do
  let state := state.assign dest (state.xs src)
  if (state.xs dest).isPtr then
    let address := (state.xs dest).ptr
    let block ← state.heap address
    return state.setBlock address (some { block with refcnt := block.refcnt + 1 })
  else
    return state

/-! ## Tokens -/

/-- A `char *` into one of the places. -/
structure Pointer (Handle : Type) where
  place : Place Handle
  offset : Nat

/-- How many bytes lie at a place. -/
def State.extent (state : State Handle) : Place Handle → Option Nat
  | .inline _ => some 16
  | .block address => (state.heap address).map Block.length

/-- `strlen`, which has to find a NUL within what it is pointed into. -/
def strlen (state : State Handle) (p : Pointer Handle) : Option Nat := do
  let extent ← state.extent p.place
  let bytes ← state.read p.place p.offset (extent - p.offset)
  let length := (bytes.takeWhile (· ≠ 0)).length
  if length < bytes.length then some length else none

/-- The second scan of `xs_tok_r`: the number of bytes before one in the set. -/
def skipToken (mask : Nat → Nat) : List UInt8 → Nat
  | [] => 0
  | byte :: rest => if checkBit mask byte then 0 else skipToken mask rest + 1

/-- What `xs_tok_r` leaves: the state, `*saveptr` and the pointer it returns. -/
structure Token (Handle : Type) where
  state : State Handle
  saveptr : Pointer Handle
  token : Option (Pointer Handle)

/-- The body of `xs_tok_r` from the place it starts to scan at. -/
def tokFrom
    (state : State Handle)
    (orig : Pointer Handle)
    (delim : CString)
    (saveptr : Pointer Handle) : Option (Token Handle) := do
  let slen ← strlen state orig
  let mask := delim.bytes.foldl setBit fun _ => 0
  let bytes ← state.read orig.place orig.offset slen
  let start := skipFront mask bytes
  let here ← state.read orig.place (orig.offset + start) 1
  if here = [0] then
    return { state := state, saveptr := saveptr, token := none }
  else
    let i := start + skipToken mask (bytes.drop start)
    let token := some { orig with offset := orig.offset + start }
    if i < slen then
      let state ← state.write orig.place (orig.offset + i) [0]
      let saveptr := { orig with offset := orig.offset + (i + 1) }
      return { state := state, saveptr := saveptr, token := token }
    else
      let saveptr := { orig with offset := orig.offset + i }
      return { state := state, saveptr := saveptr, token := token }

/-- `xs_tok_r`, where `x` may be a null pointer. -/
def xsTokR
    (state : State Handle)
    (x : Option Handle)
    (delim : CString)
    (saveptr : Pointer Handle)
    (allocation : Allocation) : Option (Token Handle) :=
  match x with
  | none =>
      -- With no delimiter the null pointer goes to `xs_data`.
      if delim.bytes = [] then none else tokFrom state saveptr delim saveptr
  | some handle =>
      if delim.bytes = [] then
        some
          { state := state
            saveptr := saveptr
            token := some { place := xsData state (some handle), offset := 0 } }
      else do
        let state ← xsCow state (some handle) allocation
        tokFrom state { place := xsData state (some handle), offset := 0 } delim saveptr

/-! ## Programs over a set of handles -/

/-- One call, with what `malloc` returns where it is needed. -/
inductive Op (Handle : Type) where
  | new (handle : Handle) (p : CString) (allocation : Allocation)
  | copy (src dest : Handle)
  | concat (string former latter : Handle) (allocation : Allocation)
  | trim (handle : Handle) (trimset : CString) (allocation : Allocation)
  | free (handle : Handle)

/-- Run one call. -/
def execute (state : State Handle) : Op Handle → Option (State Handle)
  | .new handle p allocation => xsNew state (some handle) p allocation
  | .copy src dest => xsCopy state (some src) (some dest)
  | .concat string former latter allocation =>
      xsConcat state (some string) (some former) (some latter) allocation
  | .trim handle trimset allocation => xsTrim state (some handle) trimset allocation
  | .free handle => xsFree state (some handle)

/-- A fresh address, as `malloc` returns it. -/
structure Fresh (state : State Handle) (allocation : Allocation) : Prop where
  free : state.heap allocation.address = none
  fits : allocation.address < 2 ^ 64

/-- The handle holds no buffer. -/
def Unused (state : State Handle) (handle : Handle) : Prop :=
  (state.xs (some handle)).isPtr = false

/--
The calls considered: new strings and copies go to unused handles, `xs_concat` is given
other handles than its target, `xs_trim` a string with a byte to keep or none at all,
and no string reaches `2 ^ 32 - 1` bytes.
-/
def Admissible (state : State Handle) : Op Handle → Prop
  | .new handle p allocation =>
      Unused state handle ∧ p.bytes.length < 2 ^ 32 - 1 ∧ Fresh state allocation
  | .copy _ dest => Unused state dest
  | .concat string former latter allocation =>
      former ≠ string ∧
        latter ≠ string ∧
        xsSize (state.xs (some former)) + xsSize (state.xs (some string)) +
          xsSize (state.xs (some latter)) < 2 ^ 32 - 1 ∧
        Fresh state allocation
  | .trim handle trimset allocation =>
      (∀ bytes,
        state.read (xsData state (some handle)) 0 (xsSize (state.xs (some handle))) =
            some bytes →
          bytes = [] ∨ ∃ byte ∈ bytes, byte ∉ trimset.bytes) ∧
        Fresh state allocation
  | .free _ => True

/-- One call of a program. -/
def Step (before : State Handle) (op : Op Handle) (after : State Handle) : Prop :=
  Admissible before op ∧ execute before op = some after

/-- All handles empty and nothing allocated. -/
def State.initial : State Handle where
  xs := fun _ => Xs.literalEmpty
  heap := fun _ => none

/-- Remove the bytes of a set from both ends. -/
def trim (trimset string : List UInt8) : List UInt8 :=
  (string.dropWhile (· ∈ trimset)).rdropWhile (· ∈ trimset)

/-- What a call means for the strings. -/
def applyOp (contents : Handle → List UInt8) : Op Handle → Handle → List UInt8
  | .new handle p _ => Function.update contents handle p.bytes
  | .copy src dest => Function.update contents dest (contents src)
  | .concat string former latter _ =>
      Function.update contents string (contents former ++ contents string ++ contents latter)
  | .trim handle trimset _ =>
      Function.update contents handle (trim trimset.bytes (contents handle))
  | .free handle => Function.update contents handle []

end Sysprog.Xstring
