import Mathlib.Data.List.Basic
import Mathlib.Data.List.TakeWhile

namespace Sysprog.CStrings

/-!
# NUL-terminated strings and the bounded string functions

A C string is its bytes before the terminator, none of which is NUL.  A fixed
character array is a list of bytes that may contain NUL; past its listed bytes a
reader sees NUL.  `strncpy`, `strncmp` and `strndup` act on either.
-/

/-- A C string: the bytes before its terminator. -/
structure CString where
  bytes : List UInt8
  noNul : (0 : UInt8) ∉ bytes

instance : DecidableEq CString := fun first second =>
  decidable_of_iff (first.bytes = second.bytes) <| by
    cases first
    cases second
    simp

/-- The string an array of at most `limit` inspected bytes holds. -/
def content (limit : Nat) (array : List UInt8) : List UInt8 :=
  (array.take limit).takeWhile (· ≠ 0)

/-- `strncpy(dst, array, limit)`: the string, then NULs up to the limit. -/
def strncpy (limit : Nat) (array : List UInt8) : List UInt8 :=
  content limit array ++
    List.replicate (limit - (content limit array).length) 0

/--
`strncmp(first, second, limit)`: the difference of the first bytes that differ,
zero when a NUL or the limit comes first.
-/
def strncmp : Nat → List UInt8 → List UInt8 → Int
  | 0, _, _ => 0
  | limit + 1, first, second =>
      let left := first.headD 0
      let right := second.headD 0
      if left = right then
        if left = 0 then 0 else strncmp limit first.tail second.tail
      else
        (left.toNat : Int) - right.toNat

/-- `strndup(array, limit)`: a fresh copy of the string. -/
def strndup (limit : Nat) (array : List UInt8) : List UInt8 :=
  content limit array

variable {limit : Nat} {array : List UInt8}

theorem length_content_le : (content limit array).length ≤ limit := by
  have whole : (content limit array).length ≤ (array.take limit).length :=
    (List.takeWhile_prefix _).length_le
  have short := List.length_take_le limit array
  exact Nat.le_trans whole short

/-- A string without NUL is cut at the limit only. -/
theorem content_of_noNul
    (noNul : (0 : UInt8) ∉ array) :
    content limit array = array.take limit := by
  apply List.takeWhile_eq_self_iff.mpr
  intro byte member
  have nonzero : byte ≠ 0 := by
    intro zero
    subst zero
    exact noNul (List.mem_of_mem_take member)
  simpa using nonzero

/-- A string without NUL, padded with NULs, holds that string. -/
theorem content_append_nuls
    {bytes : List UInt8}
    {count : Nat}
    (noNul : (0 : UInt8) ∉ bytes)
    (fits : bytes.length ≤ limit) :
    content limit (bytes ++ List.replicate count 0) = bytes := by
  have allNonzero : ∀ byte ∈ bytes, (decide (byte ≠ 0)) = true := by
    intro byte member
    have nonzero : byte ≠ 0 := fun zero => noNul (zero ▸ member)
    simpa using nonzero
  rw [content, List.take_append, List.take_of_length_le fits, List.take_replicate,
    List.takeWhile_append_of_pos allNonzero]
  cases min (limit - bytes.length) count <;> simp [List.replicate_succ]

/-- What an array holds has no NUL. -/
theorem content_noNul : (0 : UInt8) ∉ content limit array := by
  intro member
  have nonzero := List.mem_takeWhile_imp member
  simp at nonzero

/-- What `strncpy` stored reads back as the string it copied. -/
@[simp] theorem content_strncpy :
    content limit (strncpy limit array) = content limit array :=
  content_append_nuls content_noNul length_content_le

/-- Copying a copy changes nothing. -/
@[simp] theorem strncpy_strncpy :
    strncpy limit (strncpy limit array) = strncpy limit array := by
  rw [strncpy, content_strncpy]
  rfl

/-- Inspecting one more byte: a NUL ends the string, any other byte extends it. -/
theorem content_succ :
    content (limit + 1) array =
      if array.headD 0 = 0 then
        []
      else
        array.headD 0 :: content limit array.tail := by
  cases array with
  | nil =>
      simp [content]
  | cons byte rest =>
      by_cases zero : byte = 0
      · simp [content, zero]
      · simp [content, zero]

/-- Comparing bounded strings for equality compares what they hold. -/
theorem strncmp_eq_zero_iff
    (limit : Nat)
    (first second : List UInt8) :
    strncmp limit first second = 0 ↔ content limit first = content limit second := by
  induction limit generalizing first second with
  | zero =>
      simp [strncmp, content]
  | succ limit inductionHypothesis =>
      rw [content_succ, content_succ, strncmp]
      by_cases same : first.headD 0 = second.headD 0
      · by_cases zero : second.headD 0 = 0
        · simp only [same, zero, ↓reduceIte]
        · simp only [same, zero, ↓reduceIte, List.cons.injEq, true_and]
          exact inductionHypothesis first.tail second.tail
      · have differ :
            ((first.headD 0).toNat : Int) - (second.headD 0).toNat ≠ 0 := by
          intro zero
          apply same
          apply UInt8.toNat_inj.mp
          omega
        simp only [same, ↓reduceIte, differ, false_iff]
        by_cases firstZero : first.headD 0 = 0
        · have secondNonzero : second.headD 0 ≠ 0 :=
            fun zero => same (firstZero.trans zero.symm)
          simp only [firstZero, secondNonzero, ↓reduceIte]
          exact (List.cons_ne_nil _ _).symm
        · by_cases secondZero : second.headD 0 = 0
          · simp only [firstZero, secondZero, ↓reduceIte]
            exact List.cons_ne_nil _ _
          · simp only [firstZero, secondZero, ↓reduceIte, List.cons.injEq, not_and]
            intro equal
            exact (same equal).elim

/-- Forcing the last byte of a copy to NUL is copying one byte less. -/
theorem strncpy_terminated
    (noNul : (0 : UInt8) ∉ array) :
    (strncpy (limit + 1) array).set limit 0 = strncpy (limit + 1) (array.take limit) := by
  have shortNoNul : (0 : UInt8) ∉ array.take limit :=
    fun member => noNul (List.mem_of_mem_take member)
  have shortContent : content (limit + 1) (array.take limit) = array.take limit := by
    rw [content_of_noNul shortNoNul]
    exact List.take_of_length_le (by rw [List.length_take]; omega)
  rw [strncpy, strncpy, shortContent, content_of_noNul noNul]
  by_cases short : array.length ≤ limit
  · rw [List.take_of_length_le (by omega), List.take_of_length_le short,
      List.set_append_right _ _ short, List.set_replicate_self]
  · have long : limit < array.length := by omega
    have cut : array.take (limit + 1) = array.take limit ++ [array[limit]] :=
      List.take_succ_eq_append_getElem long
    have cutLength : (array.take limit).length = limit := by
      simp
      omega
    rw [cut, List.append_assoc, List.set_append_right _ _ (by omega)]
    simp [cutLength]
    omega

end Sysprog.CStrings
