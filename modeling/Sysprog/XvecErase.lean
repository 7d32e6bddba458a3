import Sysprog.XvecRefinement

namespace Sysprog.Xvec

open ByteMemory Execution

/-!
# The memory `__vec_erase` touches

`__vec_erase` closes the gap with one `memmove`.  It moves as many elements as there are
from the erased one on, the erased one included, so it reads one slot behind the last
element.  On a vector that fills its buffer this slot is not there.
-/

/-- The arguments of a `memmove`, the two places as offsets from the start of the elements. -/
structure MoveArguments where
  target : Nat
  source : Nat
  length : Nat

/-- The `memmove` of `__vec_erase`. -/
def eraseMove (decl : Decl) (vector : Vec) (index : Nat) : MoveArguments where
  target := index * decl.element.size
  source := (index + 1) * decl.element.size
  length := (vector.size - index) * decl.element.size

/-- `__vec_erase` is this `memmove` and a smaller size. -/
theorem vecErase_eq_move {decl : Decl} {vector : Vec} {index : Nat}
    (valid : index < vector.size) :
    let arguments := eraseMove decl vector index
    vecErase decl vector index =
      some
        { vector.setMemory
            (move vector.memory (vector.base + arguments.target)
              (vector.base + arguments.source) arguments.length) with
          size := vector.size - 1 } :=
  if_pos valid

/-- A slot has a byte that the `memmove` reads or writes. -/
def MoveArguments.Touches (arguments : MoveArguments) (width slot : Nat) : Prop :=
  ∃ byte,
    slot * width ≤ byte ∧
      byte < (slot + 1) * width ∧
      ((arguments.source ≤ byte ∧ byte < arguments.source + arguments.length) ∨
        (arguments.target ≤ byte ∧ byte < arguments.target + arguments.length))

/-- A call of `__vec_erase` touches nothing but slots of the buffer. -/
def EraseInside (decl : Decl) (before : Vec) (op : Op) : Prop :=
  ∀ index,
    op = .erase index →
    ∀ slot,
      (eraseMove decl before index).Touches decl.element.size slot →
      slot < allocatedElements decl before

/-- At a call of `__vec_erase` the buffer has a slot behind the last element. -/
def EraseRoom (decl : Decl) (before : Vec) (op : Op) : Prop :=
  ∀ index, op = .erase index → before.size < allocatedElements decl before

variable {decl : Decl} {vector : Vec} {index : Nat}

/-- The slots touched reach from the erased one to the one behind the last. -/
theorem touches_iff (valid : index < vector.size) {slot : Nat} :
    (eraseMove decl vector index).Touches decl.element.size slot ↔
      index ≤ slot ∧ slot ≤ vector.size := by
  have positive := decl.element.sizePositive
  have sourceEnd :
      (eraseMove decl vector index).source + (eraseMove decl vector index).length =
        (vector.size + 1) * decl.element.size := by
    simp only [eraseMove, ← Nat.add_mul]
    congr 1
    omega
  have targetEnd :
      (eraseMove decl vector index).target + (eraseMove decl vector index).length =
        vector.size * decl.element.size := by
    simp only [eraseMove, ← Nat.add_mul]
    congr 1
    omega
  rw [MoveArguments.Touches, sourceEnd, targetEnd]
  simp only [eraseMove]
  constructor
  · rintro ⟨byte, low, high, touched⟩
    have whole : vector.size * decl.element.size ≤ (vector.size + 1) * decl.element.size :=
      Nat.mul_le_mul_right _ (Nat.le_succ _)
    have gap : index * decl.element.size ≤ (index + 1) * decl.element.size :=
      Nat.mul_le_mul_right _ (Nat.le_succ _)
    have above : index * decl.element.size < (slot + 1) * decl.element.size := by omega
    have below : slot * decl.element.size < (vector.size + 1) * decl.element.size := by omega
    have lower := (Nat.mul_lt_mul_right positive).mp above
    have upper := (Nat.mul_lt_mul_right positive).mp below
    omega
  · rintro ⟨lower, upper⟩
    have next : (slot + 1) * decl.element.size = slot * decl.element.size + decl.element.size :=
      Nat.succ_mul slot _
    refine ⟨slot * decl.element.size, Nat.le_refl _, by omega, ?_⟩
    by_cases erased : slot = index
    · -- The erased slot is written only.
      subst erased
      exact .inr ⟨Nat.le_refl _, (Nat.mul_lt_mul_right positive).mpr valid⟩
    · refine .inl ⟨Nat.mul_le_mul_right _ (by omega), ?_⟩
      exact (Nat.mul_lt_mul_right positive).mpr (by omega)

/-- One call stays in the buffer exactly if there is room behind the last element. -/
theorem eraseInside_iff_room {before after : Vec} {op : Op}
    (step : Step decl before op after) :
    EraseInside decl before op ↔ EraseRoom decl before op := by
  constructor
  · rintro inside index rfl
    have valid : index < before.size := by
      by_contra invalid
      simp [Step, perform, vecErase, invalid] at step
    exact inside index rfl before.size
      ((touches_iff valid).mpr ⟨Nat.le_of_lt valid, Nat.le_refl _⟩)
  · rintro room index rfl slot touched
    have valid : index < before.size := by
      by_contra invalid
      simp [Step, perform, vecErase, invalid] at step
    exact Nat.lt_of_le_of_lt ((touches_iff valid).mp touched).2 (room index rfl)

/--
In every run of either build, the calls of `__vec_erase` stay in the buffer exactly if each
of them finds a slot of it behind the last element.
-/
theorem erases_inside_iff_room
    (decl : Decl)
    (surroundings heap : Memory)
    (ops : List Op) :
    StepsSatisfy (Step decl) (declare decl surroundings heap) ops
        (fun before op _ => EraseInside decl before op) ↔
      StepsSatisfy (Step decl) (declare decl surroundings heap) ops
        (fun before op _ => EraseRoom decl before op) := by
  constructor
  · intro inside earlier op later before after shape run step
    exact (eraseInside_iff_room step).mp (inside earlier op later before after shape run step)
  · intro room earlier op later before after shape run step
    exact (eraseInside_iff_room step).mpr (room earlier op later before after shape run step)

/-- The declaration `v(int, 4, vec, 1, 2, 3, 4)` of the shipped build. -/
def fullInts : Decl where
  build := .powFactor
  element := intType
  declared := 4
  initial := [[1, 0, 0, 0], [2, 0, 0, 0], [3, 0, 0, 0], [4, 0, 0, 0]]
  declaredPositive := by decide
  initialSized := by decide
  initialFits := by decide

/-- `vec_erase(vec, 1)` on the full inline buffer touches the slot 4 of four. -/
theorem erase_outside :
    ¬ StepsSatisfy (Step fullInts) (declare fullInts (fun _ => 0) (fun _ => 0)) [.erase 1]
        (fun before op _ => EraseInside fullInts before op) := by
  intro inside
  have outside :=
    inside [] (.erase 1) [] _ _ rfl .stop ⟨trivial, rfl⟩ 1 rfl 4
      ((touches_iff (by decide)).mpr ⟨by decide, by decide⟩)
  exact absurd outside (by decide)

end Sysprog.Xvec
