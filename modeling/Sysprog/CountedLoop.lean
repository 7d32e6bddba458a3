import Mathlib.Data.List.Basic
import Mathlib.Logic.Function.Basic

namespace Sysprog.CountedLoop

/-!
# Counted loops

`for (i = 0; i < n; i++)` as a fold over the loop indices, with the two shapes of
loop body that recur in array code: storing to a fresh cell in every round, and
collecting results in order.  A loop that counts down runs the same bodies the other way
round.
-/

variable {State : Type}

/-- Run `body 0`, `body 1`, ... , `body (rounds - 1)` on a state. -/
def forLoop
    (rounds : Nat)
    (start : State)
    (body : Nat → State → State) : State :=
  (List.range rounds).foldl (fun state index => body index state) start

/-- A loop with one more round runs its last body on the result so far. -/
theorem forLoop_succ
    (rounds : Nat)
    (start : State)
    (body : Nat → State → State) :
    forLoop (rounds + 1) start body = body rounds (forLoop rounds start body) := by
  simp [forLoop, List.range_succ]

/-- Run `body (n - 1)`, ... , `body 1`, `body 0` on a state, for `n` rounds. -/
def forDown (rounds : Nat) (start : State) (body : Nat → State → State) : State :=
  match rounds with
  | 0 => start
  | rounds + 1 => forDown rounds (body rounds start) body

section Arrays

variable {Value : Type} {target : Nat → Nat} {value : Nat → Value} {array : Nat → Value}

/-- The loop `for i: array[target(i)] = value(i)`. -/
def fill
    (rounds : Nat)
    (array : Nat → Value)
    (target : Nat → Nat)
    (value : Nat → Value) : Nat → Value :=
  forLoop rounds array fun index cells => Function.update cells (target index) (value index)

/-- One more round stores one more value. -/
theorem fill_succ (rounds : Nat) :
    fill (rounds + 1) array target value =
      Function.update (fill rounds array target value) (target rounds) (value rounds) :=
  forLoop_succ ..

/-- A cell no round stores to keeps its value. -/
theorem fill_other
    {rounds cell : Nat}
    (missed : ∀ index, index < rounds → target index ≠ cell) :
    fill rounds array target value cell = array cell := by
  induction rounds with
  | zero =>
      rfl
  | succ rounds inductionHypothesis =>
      rw [fill, forLoop_succ, Function.update_of_ne]
      · exact inductionHypothesis
          (fun index inside => missed index (Nat.lt_succ_of_lt inside))
      · exact (missed rounds (Nat.lt_succ_self rounds)).symm

/-- When no two rounds store to the same cell, each store lasts. -/
theorem fill_target
    {rounds index : Nat}
    (injective :
      ∀ first second,
        first < rounds →
        second < rounds →
        target first = target second →
        first = second)
    (inside : index < rounds) :
    fill rounds array target value (target index) = value index := by
  induction rounds with
  | zero =>
      omega
  | succ rounds inductionHypothesis =>
      rw [fill, forLoop_succ]
      by_cases last : index = rounds
      · subst index
        simp
      · rw [Function.update_of_ne
          (fun same => last (injective index rounds inside (Nat.lt_succ_self rounds) same))]
        refine inductionHypothesis (fun first second firstInside secondInside => ?_) (by omega)
        exact injective first second (by omega) (by omega)

/-- The loop `for i: if (keep(i)) out[r++] = item(i)` collects the items in order. -/
theorem forLoop_collect
    {Item : Type}
    (rounds : Nat)
    (keep : Nat → Prop)
    [DecidablePred keep]
    (item : Nat → Item) :
    (forLoop rounds [] fun index collected =>
        if keep index then collected ++ [item index] else collected) =
      (List.range rounds).filterMap
        fun index => if keep index then some (item index) else none := by
  induction rounds with
  | zero =>
      rfl
  | succ rounds inductionHypothesis =>
      rw [forLoop_succ, inductionHypothesis, List.range_succ, List.filterMap_append]
      by_cases kept : keep rounds <;> simp [kept]

/--
The loop `for (i = n - 1; i >= 0; i--) array[i] = value(i, array)`: a value that depends on
no later cell is computed from the array as it was.
-/
theorem forDown_update
    {rounds : Nat}
    {value : Nat → (Nat → Value) → Value}
    (upwards :
      ∀ index (cells others : Nat → Value),
        (∀ below, below ≤ index → cells below = others below) →
        value index cells = value index others) :
    forDown rounds array (fun index cells => Function.update cells index (value index cells)) =
      fun cell => if cell < rounds then value cell array else array cell := by
  induction rounds generalizing array with
  | zero =>
      rfl
  | succ rounds inductionHypothesis =>
      rw [forDown, inductionHypothesis]
      funext cell
      by_cases earlier : cell < rounds
      · rw [if_pos earlier, if_pos (Nat.lt_succ_of_lt earlier)]
        apply upwards
        intro below within
        exact Function.update_of_ne (by omega) _ _
      · rw [if_neg earlier]
        by_cases last : cell = rounds
        · subst last
          rw [if_pos (Nat.lt_succ_self cell), Function.update_self]
        · rw [if_neg (by omega), Function.update_of_ne last]

end Arrays

end Sysprog.CountedLoop
