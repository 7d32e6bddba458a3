import Mathlib.Data.List.Nodup
import Mathlib.Logic.Function.Basic

namespace Sysprog.HeldCells

/-!
# Cells that are held by somebody

A memory hands out cells, and each of several owners holds a list of them.  `Held` says
that no cell is held twice and that the allocated cells are those that somebody holds.  It
is kept when an owner is given a fresh cell, puts its cells into another order, or gives
one back.  Nothing here depends on what the cells contain.
-/

variable
  {Owner Cell : Type}
  [DecidableEq Owner]
  {live : Cell → Bool}
  {held : Owner → List Cell}
  {owner other : Owner}
  {cell : Cell}
  {cells : List Cell}

/-- No cell is held twice, and exactly the cells that are held are allocated. -/
structure Held (live : Cell → Bool) (held : Owner → List Cell) : Prop where
  distinct : ∀ owner, (held owner).Nodup
  apart : ∀ {first second cell}, cell ∈ held first → cell ∈ held second → first = second
  allocated : ∀ cell, live cell = true ↔ ∃ owner, cell ∈ held owner

namespace Held

omit [DecidableEq Owner] in
/-- What an owner holds is allocated. -/
theorem live_of_mem (holding : Held live held) (member : cell ∈ held owner) :
    live cell = true :=
  (holding.allocated cell).mpr ⟨owner, member⟩

omit [DecidableEq Owner] in
/-- Nobody holds a cell that is free. -/
theorem not_mem_of_free (holding : Held live held) (free : live cell = false) :
    cell ∉ held owner := by
  intro member
  rw [holding.live_of_mem member] at free
  cases free

omit [DecidableEq Owner] in
/-- Without any allocated cell, nobody holds one. -/
theorem nothing (free : ∀ cell, live cell = false) :
    Held live (fun _ : Owner => []) where
  distinct := fun _ => List.nodup_nil
  apart := by simp
  allocated := by simp [free]

/-- A cell of the changed owner belongs to no other one. -/
theorem mem_update_iff :
    cell ∈ Function.update held owner cells other ↔
      (other = owner ∧ cell ∈ cells) ∨ (other ≠ owner ∧ cell ∈ held other) := by
  by_cases same : other = owner
  · subst same
    simp
  · simp [same]

/-- An owner puts what it holds into another order. -/
theorem permute (holding : Held live held) (perm : cells.Perm (held owner)) :
    Held live (Function.update held owner cells) := by
  have sameCells :
      ∀ other cell, cell ∈ Function.update held owner cells other ↔ cell ∈ held other := by
    intro other cell
    rw [mem_update_iff]
    by_cases same : other = owner
    · subst same
      simp [perm.mem_iff]
    · simp [same]
  refine ⟨?_, ?_, ?_⟩
  · intro other
    by_cases same : other = owner
    · subst same
      rw [Function.update_self]
      exact perm.nodup_iff.mpr (holding.distinct other)
    · rw [Function.update_of_ne same]
      exact holding.distinct other
  · intro first second cell inFirst inSecond
    exact holding.apart ((sameCells first cell).mp inFirst) ((sameCells second cell).mp inSecond)
  · intro cell
    simp only [sameCells]
    exact holding.allocated cell

variable [DecidableEq Cell]

/-- An owner is given a fresh cell. -/
theorem acquire (holding : Held live held) (free : live cell = false) (owner : Owner) :
    Held (Function.update live cell true)
      (Function.update held owner (cell :: held owner)) := by
  have fresh : ∀ other, cell ∉ held other := fun other => holding.not_mem_of_free free
  have membership :
      ∀ other found,
        found ∈ Function.update held owner (cell :: held owner) other ↔
          (other = owner ∧ found = cell) ∨ found ∈ held other := by
    intro other found
    rw [mem_update_iff]
    by_cases same : other = owner
    · subst same
      simp
    · simp [same]
  refine ⟨?_, ?_, ?_⟩
  · intro other
    by_cases same : other = owner
    · subst same
      rw [Function.update_self]
      exact List.nodup_cons.mpr ⟨fresh other, holding.distinct other⟩
    · rw [Function.update_of_ne same]
      exact holding.distinct other
  · intro first second found inFirst inSecond
    rcases (membership first found).mp inFirst with ⟨rfl, rfl⟩ | old
    · rcases (membership second found).mp inSecond with ⟨same, _⟩ | old
      · exact same.symm
      · exact (fresh second old).elim
    · rcases (membership second found).mp inSecond with ⟨_, rfl⟩ | older
      · exact (fresh first old).elim
      · exact holding.apart old older
  · intro found
    simp only [membership]
    by_cases same : found = cell
    · subst same
      simp
    · simp [same, holding.allocated found]

/-- An owner gives its first cell back. -/
theorem release (holding : Held live held) (first : held owner = cell :: cells) :
    Held (Function.update live cell false) (Function.update held owner cells) := by
  have holds : ∀ other found, found ∈ Function.update held owner cells other ↔
      found ≠ cell ∧ found ∈ held other := by
    intro other found
    have inside : cell ∈ held owner := by
      rw [first]
      exact List.mem_cons_self
    have distinct := holding.distinct owner
    rw [first] at distinct
    have missing := (List.nodup_cons.mp distinct).1
    rw [mem_update_iff]
    by_cases same : other = owner
    · subst same
      simp only [first, List.mem_cons, ne_eq, true_and, not_true_eq_false, false_and, or_false]
      constructor
      · intro member
        exact ⟨fun equal => missing (equal ▸ member), Or.inr member⟩
      · rintro ⟨different, equal | member⟩
        · exact (different equal).elim
        · exact member
    · simp only [same, false_and, ne_eq, not_false_eq_true, true_and, false_or]
      constructor
      · intro member
        refine ⟨fun equal => same ?_, member⟩
        rw [equal] at member
        exact holding.apart member inside
      · exact And.right
  refine ⟨?_, ?_, ?_⟩
  · intro other
    by_cases same : other = owner
    · subst same
      have distinct := holding.distinct other
      rw [first] at distinct
      rw [Function.update_self]
      exact (List.nodup_cons.mp distinct).2
    · rw [Function.update_of_ne same]
      exact holding.distinct other
  · intro first second found inFirst inSecond
    exact holding.apart ((holds first found).mp inFirst).2 ((holds second found).mp inSecond).2
  · intro found
    simp only [holds]
    by_cases same : found = cell
    · subst same
      simp
    · simp [same, holding.allocated found]

end Held

end Sysprog.HeldCells
