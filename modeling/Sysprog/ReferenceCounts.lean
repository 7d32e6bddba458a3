import Mathlib.Data.Finset.Card
import Mathlib.Logic.Function.Basic

namespace Sysprog.ReferenceCounts

/-!
# Cells shared by reference count

Owners refer to cells and every allocated cell carries a count.  A cell is shared by
adding an owner, dropped by removing one, and freed when its count comes down to zero.
The counts are exact when each one is the number of owners and no cell is allocated
without an owner.  This module depends on no component.
-/

variable {Owner Cell : Type}

/-- The cell each owner holds, and the count of each allocated cell. -/
@[ext] structure Ledger (Owner Cell : Type) where
  holds : Owner → Option Cell
  count : Cell → Option Nat

/-- The count of one cell is the number of its owners; without owners it is not allocated. -/
def ExactAt (ledger : Ledger Owner Cell) (cell : Cell) : Prop :=
  ∃ owners : Finset Owner,
    (∀ owner, owner ∈ owners ↔ ledger.holds owner = some cell) ∧
      ledger.count cell = if owners.card = 0 then none else some owners.card

/-- All counts are exact. -/
def Exact (ledger : Ledger Owner Cell) : Prop :=
  ∀ cell, ExactAt ledger cell

/-- The count of a cell that one owner has left. -/
def released : Option Nat → Option Nat
  | none => none
  | some count => if count - 1 = 0 then none else some (count - 1)

namespace Ledger

variable [DecidableEq Owner] [DecidableEq Cell]

/-- One more owner for what `source` holds. -/
def share (ledger : Ledger Owner Cell) (source target : Owner) : Ledger Owner Cell where
  holds := Function.update ledger.holds target (ledger.holds source)
  count :=
    match ledger.holds source with
    | none => ledger.count
    | some cell => Function.update ledger.count cell ((ledger.count cell).map (· + 1))

/-- An owner leaves its cell. -/
def drop (ledger : Ledger Owner Cell) (owner : Owner) : Ledger Owner Cell where
  holds := Function.update ledger.holds owner none
  count :=
    match ledger.holds owner with
    | none => ledger.count
    | some cell => Function.update ledger.count cell (released (ledger.count cell))

/-- An owner takes a newly allocated cell. -/
def create (ledger : Ledger Owner Cell) (owner : Owner) (cell : Cell) : Ledger Owner Cell where
  holds := Function.update ledger.holds owner (some cell)
  count := Function.update ledger.count cell (some 1)

/-- Who holds nothing has nothing to drop. -/
theorem drop_of_none
    (ledger : Ledger Owner Cell)
    {owner : Owner}
    (nothing : ledger.holds owner = none) :
    ledger.drop owner = ledger := by
  ext other : 2
  · by_cases same : other = owner
    · simp [drop, same, nothing]
    · simp [drop, same]
  · simp only [drop, nothing]

/-- The count of a cell that an owner does not hold may be set before or after it leaves. -/
theorem drop_update
    (ledger : Ledger Owner Cell)
    {owner : Owner}
    {cell : Cell}
    (apart : ledger.holds owner ≠ some cell)
    (value : Option Nat) :
    { ledger with count := Function.update ledger.count cell value }.drop owner =
      { ledger.drop owner with
        count := Function.update (ledger.drop owner).count cell value } := by
  cases held : ledger.holds owner with
  | none =>
      simp only [drop, held]
  | some own =>
      have different : own ≠ cell := by
        rintro rfl
        exact apart held
      simp only [drop, held, Function.update_of_ne different,
        Function.update_comm different.symm]

end Ledger

section Reading

variable {ledger : Ledger Owner Cell} {owner : Owner} {cell : Cell}

/-- Exactness depends on the owners and the count. -/
theorem ExactAt.congr
    {other : Ledger Owner Cell}
    (exact : ExactAt ledger cell)
    (holds : ∀ owner, other.holds owner = some cell ↔ ledger.holds owner = some cell)
    (count : other.count cell = ledger.count cell) :
    ExactAt other cell := by
  obtain ⟨owners, members, counted⟩ := exact
  refine ⟨owners, ?_, count.trans counted⟩
  intro owner
  rw [members owner, holds owner]

/-- A cell is allocated exactly while somebody holds it. -/
theorem Exact.allocated_iff (exact : Exact ledger) :
    ledger.count cell ≠ none ↔ ∃ owner, ledger.holds owner = some cell := by
  obtain ⟨owners, members, counted⟩ := exact cell
  rw [counted]
  constructor
  · intro allocated
    have occupied : owners.card ≠ 0 := by
      intro empty
      exact allocated (if_pos empty)
    obtain ⟨owner, member⟩ := Finset.card_pos.mp (Nat.pos_of_ne_zero occupied)
    exact ⟨owner, (members owner).mp member⟩
  · rintro ⟨owner, holds⟩
    have member := (members owner).mpr holds
    have occupied : owners.card ≠ 0 := (Finset.card_pos.mpr ⟨owner, member⟩).ne'
    rw [if_neg occupied]
    simp

/-- The cell of an owner is allocated. -/
theorem Exact.counted
    (exact : Exact ledger)
    (holds : ledger.holds owner = some cell) :
    ∃ count, ledger.count cell = some count :=
  Option.ne_none_iff_exists'.mp (exact.allocated_iff.mpr ⟨owner, holds⟩)

/-- A count above one tells of another owner. -/
theorem Exact.shared_iff
    {count : Nat}
    (exact : Exact ledger)
    (holds : ledger.holds owner = some cell)
    (counted : ledger.count cell = some count) :
    1 < count ↔ ∃ other, other ≠ owner ∧ ledger.holds other = some cell := by
  obtain ⟨owners, members, countEq⟩ := exact cell
  have own : owner ∈ owners := (members owner).mpr holds
  have occupied : owners.card ≠ 0 := (Finset.card_pos.mpr ⟨owner, own⟩).ne'
  rw [countEq, if_neg occupied] at counted
  obtain rfl := Option.some.inj counted
  constructor
  · intro several
    obtain ⟨other, member, different⟩ := Finset.exists_mem_ne several owner
    exact ⟨other, different, (members other).mp member⟩
  · rintro ⟨other, different, otherHolds⟩
    exact Finset.one_lt_card.mpr ⟨other, (members other).mpr otherHolds, owner, own, different⟩

/-- Between exact ledgers a cell is freed exactly when its last owner has left. -/
theorem Exact.freed_iff
    {after : Ledger Owner Cell}
    (exact : Exact ledger)
    (exactAfter : Exact after) :
    (ledger.count cell ≠ none ∧ after.count cell = none) ↔
      (∃ owner, ledger.holds owner = some cell) ∧ ∀ owner, after.holds owner ≠ some cell := by
  rw [exact.allocated_iff]
  constructor
  · rintro ⟨held, freed⟩
    refine ⟨held, fun owner holds => ?_⟩
    exact exactAfter.allocated_iff.mpr ⟨owner, holds⟩ freed
  · rintro ⟨held, left⟩
    refine ⟨held, ?_⟩
    by_contra allocated
    obtain ⟨owner, holds⟩ := exactAfter.allocated_iff.mp allocated
    exact left owner holds

end Reading

section Changing

variable
  [DecidableEq Owner]
  [DecidableEq Cell]
  {ledger : Ledger Owner Cell}
  {owner : Owner}
  {cell : Cell}

/-- Dropping keeps the counts exact. -/
theorem Exact.drop (exact : Exact ledger) (owner : Owner) : Exact (ledger.drop owner) := by
  intro cell
  have left : ∀ other, (ledger.drop owner).holds other = some cell ↔
      other ≠ owner ∧ ledger.holds other = some cell := by
    intro other
    by_cases same : other = owner
    · simp [Ledger.drop, same]
    · simp [Ledger.drop, same]
  cases held : ledger.holds owner with
  | none =>
      apply (exact cell).congr
      · intro other
        rw [left other]
        constructor
        · exact fun both => both.2
        · intro holds
          refine ⟨?_, holds⟩
          rintro rfl
          rw [held] at holds
          simp at holds
      · simp [Ledger.drop, held]
  | some own =>
      by_cases atOwn : cell = own
      · subst atOwn
        obtain ⟨owners, members, counted⟩ := exact cell
        have member : owner ∈ owners := (members owner).mpr held
        have occupied : owners.card ≠ 0 := (Finset.card_pos.mpr ⟨owner, member⟩).ne'
        refine ⟨owners.erase owner, ?_, ?_⟩
        · intro other
          rw [Finset.mem_erase, members other, left other]
        · rw [if_neg occupied] at counted
          simp only [Ledger.drop, held, Function.update_self, counted, released,
            Finset.card_erase_of_mem member]
      · apply (exact cell).congr
        · intro other
          rw [left other]
          constructor
          · exact fun both => both.2
          · intro holds
            refine ⟨?_, holds⟩
            rintro rfl
            rw [held] at holds
            exact atOwn (Option.some.inj holds).symm
        · simp [Ledger.drop, held, Function.update_of_ne atOwn]

/-- Sharing with an owner that held nothing keeps the counts exact. -/
theorem Exact.share
    {source target : Owner}
    (exact : Exact ledger)
    (unused : ledger.holds target = none) :
    Exact (ledger.share source target) := by
  intro cell
  cases held : ledger.holds source with
  | none =>
      apply (exact cell).congr
      · intro other
        by_cases same : other = target
        · simp [Ledger.share, held, same, unused]
        · simp [Ledger.share, held, same]
      · simp [Ledger.share, held]
  | some own =>
      have joined : ∀ other, (ledger.share source target).holds other = some cell ↔
          (other = target ∧ own = cell) ∨ ledger.holds other = some cell := by
        intro other
        by_cases same : other = target
        · simp [Ledger.share, held, same, unused]
        · simp [Ledger.share, same]
      by_cases atOwn : cell = own
      · subst atOwn
        obtain ⟨owners, members, counted⟩ := exact cell
        have member : source ∈ owners := (members source).mpr held
        have occupied : owners.card ≠ 0 := (Finset.card_pos.mpr ⟨source, member⟩).ne'
        have fresh : target ∉ owners := by
          rw [members target, unused]
          simp
        refine ⟨insert target owners, ?_, ?_⟩
        · intro other
          rw [Finset.mem_insert, members other, joined other]
          simp
        · rw [if_neg occupied] at counted
          simp [Ledger.share, held, counted, Finset.card_insert_of_notMem fresh]
      · apply (exact cell).congr
        · intro other
          rw [joined other]
          simp [Ne.symm atOwn]
        · simp [Ledger.share, held, Function.update_of_ne atOwn]

/-- A new cell with its one owner keeps the counts exact. -/
theorem Exact.create
    (exact : Exact ledger)
    (unused : ledger.holds owner = none)
    (fresh : ledger.count cell = none) :
    Exact (ledger.create owner cell) := by
  intro other
  have taken : ∀ another, (ledger.create owner cell).holds another = some other ↔
      (another = owner ∧ cell = other) ∨ ledger.holds another = some other := by
    intro another
    by_cases same : another = owner
    · simp [Ledger.create, same, unused]
    · simp [Ledger.create, same]
  by_cases atCell : other = cell
  · subst atCell
    have nobody : ∀ another, ledger.holds another ≠ some other := by
      intro another holds
      exact exact.allocated_iff.mpr ⟨another, holds⟩ fresh
    refine ⟨{owner}, ?_, by simp [Ledger.create]⟩
    intro another
    rw [taken another]
    simp [nobody another]
  · apply (exact other).congr
    · intro another
      rw [taken another]
      simp [Ne.symm atCell]
    · simp [Ledger.create, Function.update_of_ne atCell]

/-- An owner leaves its cell, if it holds one, for a new cell. -/
theorem Exact.move
    (exact : Exact ledger)
    (owner : Owner)
    (fresh : ledger.count cell = none) :
    Exact ((ledger.drop owner).create owner cell) := by
  refine (exact.drop owner).create (by simp [Ledger.drop]) ?_
  cases held : ledger.holds owner with
  | none =>
      simp only [Ledger.drop, held, fresh]
  | some own =>
      have different : cell ≠ own := by
        rintro rfl
        exact exact.allocated_iff.mpr ⟨owner, held⟩ fresh
      simp only [Ledger.drop, held, Function.update_of_ne different, fresh]

end Changing

end Sysprog.ReferenceCounts
