import Sysprog.ByteMemory
import Sysprog.CStrings

namespace Sysprog.StringBuffer

open ByteMemory CStrings

/-!
# Text that is appended to a buffer

A buffer in memory holds a text, and behind it nothing but NULs up to its end.  `snprintf`
into an array stores the start of a text and returns the length of all of it; `strncat`
appends what an array holds.
-/

/-- `strlen` of a string that ends within `limit` bytes. -/
def strlen (limit : Nat) (memory : Memory) (start : Nat) : Nat :=
  (content limit (read memory start limit)).length

/-- `strncat(start, array, count)`, where the string at `start` ends within `limit` bytes. -/
def strncat (limit count : Nat) (memory : Memory) (start : Nat) (array : List UInt8) : Memory :=
  write memory (start + strlen limit memory start) (content count array ++ [0])

/-- `snprintf(array, size, ...)` of a text: the array afterwards, and the value returned. -/
def snprintf (size : Nat) (array text : List UInt8) : List UInt8 × Nat :=
  let stored := text.take (size - 1) ++ [0]
  (stored ++ array.drop stored.length, text.length)

/-- The `limit` bytes from `start` on are the text and NULs, at least one of them. -/
structure Holds (limit : Nat) (memory : Memory) (start : Nat) (text : List UInt8) : Prop where
  stored : read memory start text.length = text
  zeros : ∀ offset, text.length ≤ offset → offset < limit → memory (start + offset) = 0
  noNul : (0 : UInt8) ∉ text
  room : text.length < limit

variable {limit count size start : Nat} {memory : Memory} {array text added : List UInt8}

/-- A string before a NUL is what an array holds. -/
theorem content_terminated
    {rest : List UInt8}
    (noNul : (0 : UInt8) ∉ text)
    (inside : text.length < limit) :
    content limit (text ++ 0 :: rest) = text := by
  obtain ⟨room, rfl⟩ := Nat.exists_eq_add_of_lt inside
  have allNonzero : ∀ byte ∈ text, (decide (byte ≠ 0)) = true := by
    intro byte member
    have nonzero : byte ≠ 0 := fun zero => noNul (zero ▸ member)
    simpa using nonzero
  rw [content, List.take_append, List.take_of_length_le (by omega),
    show text.length + room + 1 - text.length = room + 1 by omega, List.take_succ_cons,
    List.takeWhile_append_of_pos allNonzero]
  simp

/-- `strlen` is the length of the text. -/
theorem Holds.strlen_eq (holds : Holds limit memory start text) :
    strlen limit memory start = text.length := by
  have room := holds.room
  obtain ⟨rest, whole⟩ := Nat.exists_eq_add_of_lt room
  have terminator : read memory (start + text.length) (rest + 1) =
      0 :: read memory (start + text.length + 1) rest := by
    rw [Nat.add_comm rest 1, read_add]
    simp [ByteMemory.read, holds.zeros text.length (Nat.le_refl _) room]
  have split : read memory start limit =
      text ++ 0 :: read memory (start + text.length + 1) rest := by
    rw [whole, Nat.add_assoc, read_add, holds.stored, terminator]
  rw [strlen, split, content_terminated holds.noNul room]

/-- A buffer of NULs holds the empty text. -/
theorem Holds.empty
    (positive : 0 < limit)
    (zeroed : ∀ offset, offset < limit → memory (start + offset) = 0) :
    Holds limit memory start [] where
  stored := rfl
  zeros := fun offset _ inside => zeroed offset inside
  noNul := by simp
  room := positive

/-- `strncat` appends what the array holds. -/
theorem Holds.strncat
    (holds : Holds limit memory start text)
    (held : content count array = added)
    (room : text.length + added.length < limit) :
    Holds limit (strncat limit count memory start array) start (text ++ added) := by
  have written : StringBuffer.strncat limit count memory start array =
      write memory (start + text.length) (added ++ [0]) := by
    rw [StringBuffer.strncat, holds.strlen_eq, held]
  rw [written]
  refine ⟨?_, ?_, ?_, ?_⟩
  · rw [List.length_append, read_add, read_write_disjoint (.inl (Nat.le_refl _)),
      holds.stored, read_write_take (by simp), List.take_left]
  · intro offset behind inside
    rw [List.length_append] at behind
    by_cases last : offset = text.length + added.length
    · have terminator := @write_inside memory (start + text.length) (added ++ [0])
        added.length (by simp)
      rw [last, ← Nat.add_assoc, terminator]
      simp
    · rw [write_outside (.inr (by simp; omega))]
      exact holds.zeros offset (by omega) inside
  · rw [List.mem_append, not_or, ← held]
    exact ⟨holds.noNul, content_noNul⟩
  · rwa [List.length_append]

/-- What `snprintf` stores is the start of the text that fits. -/
theorem content_snprintf
    (noNul : (0 : UInt8) ∉ text)
    (positive : 0 < size) :
    content size (snprintf size array text).1 = text.take (size - 1) := by
  have short : (text.take (size - 1)).length < size := by
    rw [List.length_take]
    omega
  simp only [snprintf, List.append_assoc, List.singleton_append]
  exact content_terminated (fun member => noNul (List.mem_of_mem_take member)) short

end Sysprog.StringBuffer
