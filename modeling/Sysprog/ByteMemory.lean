import Mathlib.Data.List.Basic
import Mathlib.Tactic.Ring

namespace Sysprog.ByteMemory

/-!
# Byte-addressed memory

Memory is a total map from addresses to bytes.  Blocks of bytes are read and
written as lists, which is how `memcpy` and `memmove` act: the source is read
in full before the destination changes.  The lemmas say what a block read
returns after a block write that covers it, misses it, or starts beside it.
-/

/-- A byte at every address. -/
abbrev Memory := Nat → UInt8

/-- The `length` bytes from `address` on. -/
def read (memory : Memory) (address length : Nat) : List UInt8 :=
  (List.range length).map fun offset => memory (address + offset)

/-- Overwrite the block that starts at `address` with `bytes`. -/
def write (memory : Memory) (address : Nat) (bytes : List UInt8) : Memory :=
  fun cell =>
    if address ≤ cell then
      (bytes[cell - address]?).getD (memory cell)
    else
      memory cell

variable {memory : Memory} {address length : Nat} {bytes : List UInt8}

@[simp] theorem length_read :
    (read memory address length).length = length := by
  simp [read]

theorem getElem?_read
    {index : Nat}
    (inside : index < length) :
    (read memory address length)[index]? = some (memory (address + index)) := by
  simp [read, inside]

theorem getElem_read
    {index : Nat}
    (inside : index < (read memory address length).length) :
    (read memory address length)[index] = memory (address + index) := by
  simp [read]

/-- Blocks that agree byte by byte read the same. -/
theorem read_congr
    {other : Memory}
    {start : Nat}
    (agree : ∀ index, index < length → memory (address + index) = other (start + index)) :
    read memory address length = read other start length := by
  apply List.map_congr_left
  intro index member
  exact agree index (List.mem_range.mp member)

/-- A block of `first + second` bytes is its two parts side by side. -/
theorem read_add
    (first second : Nat) :
    read memory address (first + second) =
      read memory address first ++ read memory (address + first) second := by
  simp [read, List.range_add, List.map_map, Function.comp_def, Nat.add_assoc]

/-- Reading part of a block takes the bytes from its middle. -/
theorem read_sub
    {offset count : Nat}
    (inside : offset + count ≤ length) :
    read memory (address + offset) count =
      ((read memory address length).drop offset).take count := by
  obtain ⟨rest, rfl⟩ := Nat.exists_eq_add_of_le inside
  rw [Nat.add_assoc, read_add, read_add]
  simp

/-- The middle of a block that is known reads as it is known. -/
theorem read_middle
    {first second third : List UInt8}
    (known : read memory address length = first ++ (second ++ third)) :
    read memory (address + first.length) second.length = second := by
  have total := congrArg List.length known
  rw [length_read, List.length_append, List.length_append] at total
  rw [read_sub (show first.length + second.length ≤ length by omega), known, List.drop_left,
    List.take_left]

theorem write_inside
    {index : Nat}
    (inside : index < bytes.length) :
    write memory address bytes (address + index) = bytes[index] := by
  simp [write, inside]

theorem write_outside
    {cell : Nat}
    (outside : cell < address ∨ address + bytes.length ≤ cell) :
    write memory address bytes cell = memory cell := by
  rcases outside with below | above
  · simp [write, Nat.not_le.mpr below]
  · have beyond : bytes.length ≤ cell - address := by omega
    simp [write, List.getElem?_eq_none beyond]

/-- Writing nothing changes nothing. -/
@[simp] theorem write_nil : write memory address [] = memory := by
  funext cell
  exact write_outside (by simp; omega)

/-- A block just written reads back. -/
@[simp] theorem read_write :
    read (write memory address bytes) address bytes.length = bytes := by
  apply List.ext_getElem
  · simp
  · intro index _ inside
    rw [getElem_read, write_inside inside]

/-- A block just written reads back, with its length given separately. -/
theorem read_write_of_length
    (sized : bytes.length = length) :
    read (write memory address bytes) address length = bytes := by
  subst sized
  exact read_write

/-- The start of a block just written reads back as the start of what was written. -/
theorem read_write_take
    (short : length ≤ bytes.length) :
    read (write memory address bytes) address length = bytes.take length := by
  have whole : read (write memory address bytes) address bytes.length = bytes :=
    read_write
  have part :=
    @read_sub (write memory address bytes) address bytes.length 0 length (by omega)
  simpa [whole] using part

/-- A write leaves every block it does not meet as it was. -/
theorem read_write_disjoint
    {start count : Nat}
    (apart : start + count ≤ address ∨ address + bytes.length ≤ start) :
    read (write memory address bytes) start count = read memory start count := by
  apply read_congr
  intro index inside
  apply write_outside
  omega

/-- Writing a block in two parts is writing it at once. -/
theorem write_append
    (first second : List UInt8) :
    write memory address (first ++ second) =
      write (write memory address first) (address + first.length) second := by
  funext cell
  by_cases below : cell < address
  · rw [write_outside (Or.inl below), write_outside (Or.inl (by omega)),
      write_outside (Or.inl below)]
  · obtain ⟨index, rfl⟩ := Nat.exists_eq_add_of_le (Nat.le_of_not_lt below)
    by_cases inFirst : index < first.length
    · rw [write_inside (by simp; omega), write_outside (Or.inl (by omega)),
        write_inside inFirst, List.getElem_append_left inFirst]
    · by_cases inSecond : index < first.length + second.length
      · obtain ⟨offset, rfl⟩ :=
          Nat.exists_eq_add_of_le (Nat.le_of_not_lt inFirst)
        rw [write_inside (by simp; omega), ← Nat.add_assoc,
          write_inside (by omega)]
        simp
      · rw [write_outside (Or.inr (by simp; omega)),
          write_outside (Or.inr (by omega)), write_outside (Or.inr (by omega))]

/-- Writes to blocks that do not meet can be exchanged. -/
theorem write_comm
    {start : Nat}
    {others : List UInt8}
    (apart : address + bytes.length ≤ start ∨ start + others.length ≤ address) :
    write (write memory address bytes) start others =
      write (write memory start others) address bytes := by
  funext cell
  by_cases inFirst : address ≤ cell ∧ cell < address + bytes.length
  · obtain ⟨index, rfl⟩ := Nat.exists_eq_add_of_le inFirst.1
    rw [write_outside (by omega), write_inside (by omega), write_inside (by omega)]
  · have missed : cell < address ∨ address + bytes.length ≤ cell := by omega
    rw [@write_outside (write memory start others) address bytes cell missed]
    by_cases inSecond : start ≤ cell ∧ cell < start + others.length
    · obtain ⟨index, rfl⟩ := Nat.exists_eq_add_of_le inSecond.1
      rw [write_inside (by omega), write_inside (by omega)]
    · rw [write_outside (by omega), write_outside missed, write_outside (by omega)]

/-- `memmove` within one memory: the source block is read before any byte is written. -/
def move (memory : Memory) (target source length : Nat) : Memory :=
  write memory target (read memory source length)

/-- The byte `index` places into the target of a move is the one at the source. -/
theorem move_inside
    {target source index : Nat}
    (inside : index < length) :
    move memory target source length (target + index) = memory (source + index) := by
  rw [move, write_inside (by simpa using inside), getElem_read]

/-! ## Arrays of fixed-width slots -/

/-- The `width` bytes of the slot `index` in an array that starts at `base`. -/
def slot (memory : Memory) (base width index : Nat) : List UInt8 :=
  read memory (base + index * width) width

section Slots

variable {base width : Nat}

/-- Distinct slots of one array do not meet. -/
private theorem slots_apart
    {first second : Nat}
    (different : first ≠ second) :
    first * width + width ≤ second * width ∨
      second * width + width ≤ first * width := by
  rcases Nat.lt_or_gt_of_ne different with before | after
  · left
    calc
      first * width + width = (first + 1) * width := by ring
      _ ≤ second * width := Nat.mul_le_mul_right width before
  · right
    calc
      second * width + width = (second + 1) * width := by ring
      _ ≤ first * width := Nat.mul_le_mul_right width after

/-- A slot just written holds what was written. -/
theorem slot_write_same
    {index : Nat}
    (sized : bytes.length = width) :
    slot (write memory (base + index * width) bytes) base width index = bytes := by
  rw [slot, read_write_of_length sized]

/-- Writing one slot leaves the others. -/
theorem slot_write_other
    {written index : Nat}
    (sized : bytes.length = width)
    (different : index ≠ written) :
    slot (write memory (base + written * width) bytes) base width index =
      slot memory base width index := by
  apply read_write_disjoint
  have apart := @slots_apart width index written different
  omega

/-- A slot inside the target of a move of whole slots comes from the source. -/
theorem slot_move_inside
    {target source count offset : Nat}
    (inside : offset < count) :
    slot
        (move memory (base + target * width) (base + source * width) (count * width))
        base width (target + offset) =
      slot memory base width (source + offset) := by
  have fits : offset * width + width ≤ count * width := by
    calc
      offset * width + width = (offset + 1) * width := by ring
      _ ≤ count * width := Nat.mul_le_mul_right width inside
  apply read_congr
  intro byte inWidth
  have targetCell :
      base + (target + offset) * width + byte =
        base + target * width + (offset * width + byte) := by
    ring
  have sourceCell :
      base + (source + offset) * width + byte =
        base + source * width + (offset * width + byte) := by
    ring
  rw [targetCell, sourceCell, move_inside (by omega)]

/-- A slot outside the target of a move of whole slots stays. -/
theorem slot_move_outside
    {target source count index : Nat}
    (outside : index < target ∨ target + count ≤ index) :
    slot
        (move memory (base + target * width) (base + source * width) (count * width))
        base width index =
      slot memory base width index := by
  apply read_write_disjoint
  rw [length_read]
  rcases outside with below | above
  · left
    have ends : index * width + width ≤ target * width := by
      calc
        index * width + width = (index + 1) * width := by ring
        _ ≤ target * width := Nat.mul_le_mul_right width below
    omega
  · right
    have starts : target * width + count * width ≤ index * width := by
      calc
        target * width + count * width = (target + count) * width := by ring
        _ ≤ index * width := Nat.mul_le_mul_right width above
    omega

/-- Arrays whose first `count` slots agree byte by byte agree slot by slot. -/
theorem slot_congr
    {other : Memory}
    {start count index : Nat}
    (agree :
      read memory base (count * width) = read other start (count * width))
    (inside : index < count) :
    slot memory base width index = slot other start width index := by
  have fits : index * width + width ≤ count * width := by
    calc
      index * width + width = (index + 1) * width := by ring
      _ ≤ count * width := Nat.mul_le_mul_right width inside
  rw [slot, slot, read_sub fits, read_sub fits, agree]

end Slots

/-! ## Little-endian words -/

/-- The `width` little-endian bytes of a number, reduced to that width. -/
def encode : Nat → Nat → List UInt8
  | 0, _ => []
  | width + 1, value => UInt8.ofNat value :: encode width (value / 256)

/-- The number a list of little-endian bytes stands for. -/
def decode : List UInt8 → Nat
  | [] => 0
  | byte :: rest => byte.toNat + 256 * decode rest

@[simp] theorem length_encode (width value : Nat) :
    (encode width value).length = width := by
  induction width generalizing value with
  | zero =>
      rfl
  | succ width inductionHypothesis =>
      simp [encode, inductionHypothesis]

/-- Decoding what was encoded reduces the number to the width. -/
theorem decode_encode (width value : Nat) :
    decode (encode width value) = value % 256 ^ width := by
  induction width generalizing value with
  | zero =>
      simp [encode, decode, Nat.mod_one]
  | succ width inductionHypothesis =>
      have lowByte : (UInt8.ofNat value).toNat = value % 256 := by
        simp
      rw [encode, decode, inductionHypothesis, lowByte, Nat.pow_succ',
        Nat.mod_mul]

/-- Later bytes weigh more. -/
theorem decode_append (first second : List UInt8) :
    decode (first ++ second) = decode first + 256 ^ first.length * decode second := by
  induction first with
  | nil =>
      simp [decode]
  | cons byte rest inductionHypothesis =>
      simp only [List.cons_append, decode, List.length_cons, inductionHypothesis]
      ring

/-- A number given by its bytes fits their width. -/
theorem decode_lt (bytes : List UInt8) : decode bytes < 256 ^ bytes.length := by
  induction bytes with
  | nil =>
      simp [decode]
  | cons byte rest inductionHypothesis =>
      have small := byte.toNat_lt
      simp only [decode, List.length_cons, Nat.pow_succ']
      omega

/-- A number that fits the width survives the round trip. -/
theorem decode_encode_of_lt
    {width value : Nat}
    (fits : value < 256 ^ width) :
    decode (encode width value) = value := by
  rw [decode_encode, Nat.mod_eq_of_lt fits]

end Sysprog.ByteMemory
