import Mathlib.Data.Fintype.Card
import Mathlib.Data.Fin.Basic
import Mathlib.Algebra.Group.Fin.Basic

namespace Sysprog.MutualExclusion

/-!
# Locks and who holds them

A lock only knows whether it is taken.  Who holds it follows from where the parties
stand in their programs.  This module has the rules for taking and giving back a lock,
and the counting argument for parties that go round a ring of locks hand over hand.
-/

/-! ## Exclusive locks -/

section Locks

variable {Party Lock : Type}

/-- The locks that are taken are those that are held, each by one party. -/
structure Exclusive (taken : Lock → Prop) (holds : Party → Lock → Prop) : Prop where
  held : ∀ lock, taken lock ↔ ∃ party, holds party lock
  alone : ∀ lock first second, holds first lock → holds second lock → first = second

namespace Exclusive

variable
  {taken takenAfter : Lock → Prop}
  {holds holdsAfter : Party → Lock → Prop}
  {party : Party}
  {lock : Lock}

/-- What is held is taken. -/
theorem taken_of_holds
    (exclusive : Exclusive taken holds)
    (mine : holds party lock) :
    taken lock :=
  (exclusive.held lock).mpr ⟨party, mine⟩

/-- Nobody holds a lock that is not taken. -/
theorem not_holds
    (exclusive : Exclusive taken holds)
    (free : ¬ taken lock)
    (other : Party) :
    ¬ holds other lock :=
  fun theirs => free (exclusive.taken_of_holds theirs)

/-- A step that neither takes a lock nor gives one back. -/
theorem same
    (exclusive : Exclusive taken holds)
    (sameTaken : ∀ lock, takenAfter lock ↔ taken lock)
    (sameHolds : ∀ party lock, holdsAfter party lock ↔ holds party lock) :
    Exclusive takenAfter holdsAfter where
  held := by
    intro lock
    simp only [sameTaken, sameHolds]
    exact exclusive.held lock
  alone := by
    intro lock first second
    simp only [sameHolds]
    exact exclusive.alone lock first second

/-- A party takes a lock that is free. -/
theorem acquire
    (exclusive : Exclusive taken holds)
    (party : Party)
    (lock : Lock)
    (free : ¬ taken lock)
    (marked : ∀ other, takenAfter other ↔ other = lock ∨ taken other)
    (own : ∀ other, holdsAfter party other ↔ other = lock ∨ holds party other)
    (others : ∀ another, another ≠ party → ∀ other, holdsAfter another other ↔ holds another other) :
    Exclusive takenAfter holdsAfter where
  held := by
    intro other
    rw [marked, exclusive.held]
    constructor
    · rintro (same | ⟨holder, theirs⟩)
      · exact ⟨party, (own other).mpr (Or.inl same)⟩
      · by_cases isParty : holder = party
        · subst isParty
          exact ⟨holder, (own other).mpr (Or.inr theirs)⟩
        · exact ⟨holder, (others holder isParty other).mpr theirs⟩
    · rintro ⟨holder, theirs⟩
      by_cases isParty : holder = party
      · subst isParty
        exact ((own other).mp theirs).imp_right fun before => ⟨holder, before⟩
      · exact Or.inr ⟨holder, (others holder isParty other).mp theirs⟩
  alone := by
    -- A second holder of the new lock would have held it while it was free.
    have mine : ∀ {other another}, another ≠ party →
        holdsAfter party other → holdsAfter another other → False := by
      intro other another different ours theirs
      rw [others another different] at theirs
      rcases (own other).mp ours with rfl | before
      · exact exclusive.not_holds free another theirs
      · exact different (exclusive.alone other another party theirs before)
    intro other first second firstHolds secondHolds
    by_cases firstIs : first = party <;> by_cases secondIs : second = party
    · rw [firstIs, secondIs]
    · rw [firstIs] at firstHolds
      exact (mine secondIs firstHolds secondHolds).elim
    · rw [secondIs] at secondHolds
      exact (mine firstIs secondHolds firstHolds).elim
    · exact exclusive.alone other first second
        ((others first firstIs other).mp firstHolds)
        ((others second secondIs other).mp secondHolds)

/-- A party gives back a lock that it holds. -/
theorem release
    (exclusive : Exclusive taken holds)
    (party : Party)
    (lock : Lock)
    (mine : holds party lock)
    (marked : ∀ other, takenAfter other ↔ other ≠ lock ∧ taken other)
    (own : ∀ other, holdsAfter party other ↔ other ≠ lock ∧ holds party other)
    (others : ∀ another, another ≠ party → ∀ other, holdsAfter another other ↔ holds another other) :
    Exclusive takenAfter holdsAfter where
  held := by
    intro other
    rw [marked, exclusive.held]
    constructor
    · rintro ⟨different, holder, theirs⟩
      by_cases isParty : holder = party
      · subst isParty
        exact ⟨holder, (own other).mpr ⟨different, theirs⟩⟩
      · exact ⟨holder, (others holder isParty other).mpr theirs⟩
    · rintro ⟨holder, theirs⟩
      by_cases isParty : holder = party
      · subst isParty
        obtain ⟨different, before⟩ := (own other).mp theirs
        exact ⟨different, holder, before⟩
      · have before := (others holder isParty other).mp theirs
        refine ⟨?_, holder, before⟩
        rintro rfl
        exact isParty (exclusive.alone other holder party before mine)
  alone := by
    have before : ∀ {other holder}, holdsAfter holder other → holds holder other := by
      intro other holder theirs
      by_cases isParty : holder = party
      · subst isParty
        exact ((own other).mp theirs).2
      · exact (others holder isParty other).mp theirs
    intro other first second firstHolds secondHolds
    exact exclusive.alone other first second (before firstHolds) (before secondHolds)

end Exclusive

end Locks

/-! ## Going round a ring hand over hand -/

section Ring

variable {count : Nat}

/-- A set of places on a ring that has the next place of each of its places has all. -/
theorem eq_univ_of_next
    {places : Finset (Fin (count + 1))}
    (occupied : places.Nonempty)
    (closed : ∀ place ∈ places, place + 1 ∈ places) :
    places = Finset.univ := by
  obtain ⟨first, member⟩ := occupied
  have reached : ∀ steps : Nat, first + Fin.ofNat (count + 1) steps ∈ places := by
    intro steps
    induction steps with
    | zero =>
        simpa using member
    | succ steps inductionHypothesis =>
        have next := closed _ inductionHypothesis
        have same : Fin.ofNat (count + 1) (steps + 1) = Fin.ofNat (count + 1) steps + 1 := by
          apply Fin.ext
          simp [Fin.val_add]
        rw [same, ← add_assoc]
        exact next
  ext place
  simp only [Finset.mem_univ, iff_true]
  have there := reached (place - first).val
  rw [Fin.ofNat_val_eq_self, add_sub_cancel] at there
  exact there

/--
Fewer parties than places cannot all wait for each other: with every party at one place
and waiting for the next, some party waits for a place where none of them is.
-/
theorem exists_next_unoccupied
    {waiting : Finset (Fin count)}
    (place : Fin count → Fin (count + 1))
    (someone : waiting.Nonempty) :
    ∃ party ∈ waiting, ∀ other ∈ waiting, place other ≠ place party + 1 := by
  by_contra stuck
  push Not at stuck
  have all : waiting.image place = Finset.univ := by
    apply eq_univ_of_next (someone.image place)
    intro here member
    obtain ⟨party, waits, rfl⟩ := Finset.mem_image.mp member
    obtain ⟨other, otherWaits, next⟩ := stuck party waits
    exact Finset.mem_image.mpr ⟨other, otherWaits, next⟩
  have most : (waiting.image place).card ≤ count := by
    calc
      (waiting.image place).card ≤ waiting.card := Finset.card_image_le
      _ ≤ Fintype.card (Fin count) := Finset.card_le_univ waiting
      _ = count := Fintype.card_fin count
  rw [all, Finset.card_univ, Fintype.card_fin] at most
  omega

end Ring

end Sysprog.MutualExclusion
