import Mathlib.Data.List.GetD
import Sysprog.ByteMemory
import Sysprog.CountedLoop

namespace Sysprog.MirroredBuffer

open ByteMemory CountedLoop

/-!
# Buffers mapped twice in a row

`size` bytes of storage are visible at two consecutive places, so that byte `i` and
byte `i + size` of the buffer are one cell.  Blocks that start in the first copy may
run on into the second one.  The lemmas say what a block holds after another block
was copied into the buffer, for blocks that lie within one window of `size` bytes.
-/

/-- The contents of the buffer as the two mappings show it. -/
def view (size : Nat) (cells : Memory) : Memory :=
  fun index => cells (index % size)

/-- `memcpy` into the buffer, byte by byte. -/
def copyIn (size : Nat) (cells : Memory) (start : Nat) (bytes : List UInt8) : Memory :=
  fill bytes.length cells (fun index => (start + index) % size) fun index =>
    bytes.getD index 0

variable {size start : Nat} {cells : Memory} {bytes : List UInt8}

/-- Two places less than `size` apart are one cell only if they are the same place. -/
private theorem mod_inj
    {first second : Nat}
    (near : first < second + size)
    (near' : second < first + size)
    (same : first % size = second % size) :
    first = second := by
  have cut := Nat.div_add_mod first size
  have cut' := Nat.div_add_mod second size
  rw [same] at cut
  rcases Nat.lt_trichotomy (first / size) (second / size) with less | equal | more
  · have := Nat.mul_le_mul_left size less
    rw [Nat.mul_succ] at this
    omega
  · rw [equal] at cut
    omega
  · have := Nat.mul_le_mul_left size more
    rw [Nat.mul_succ] at this
    omega

/-- A block copied in reads back. -/
theorem read_copyIn
    (fits : bytes.length ≤ size) :
    read (view size (copyIn size cells start bytes)) start bytes.length = bytes := by
  apply List.ext_getElem
  · simp
  · intro index _ inside
    rw [getElem_read, view, copyIn, fill_target _ inside]
    · exact List.getD_eq_getElem bytes 0 inside
    · intro first second firstInside secondInside same
      have := mod_inj (by omega) (by omega) same
      omega

/-- A copy leaves the blocks before it in the window alone. -/
theorem read_copyIn_before
    {address length : Nat}
    (before : address + length ≤ start)
    (window : start + bytes.length ≤ address + size) :
    read (view size (copyIn size cells start bytes)) address length =
      read (view size cells) address length := by
  apply read_congr
  intro index inside
  apply fill_other
  intro target targetInside same
  have := mod_inj (by omega) (by omega) same
  omega

/-- The two mappings show the same bytes. -/
theorem read_shift
    {address length : Nat} :
    read (view size cells) (address + size) length = read (view size cells) address length := by
  apply read_congr
  intro index _
  rw [view, view, Nat.add_right_comm, Nat.add_mod_right]

end Sysprog.MirroredBuffer
