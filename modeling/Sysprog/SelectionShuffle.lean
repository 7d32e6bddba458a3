import Mathlib.Data.List.Nodup
import Mathlib.Data.List.Perm.Basic
import Mathlib.Logic.Function.Basic

namespace Sysprog.SelectionShuffle

/-!
# Shuffling by selection

A list is shuffled from its front: in every round the first of what remains changes places
with a chosen one of it, itself included, and stays there.  With `i` further elements behind
the first there are `i + 1` choices, and every order of a list without duplicates comes
from exactly one sequence of choices.
-/

variable {α : Type} {items : List α}

/-- Exchange the first element with the one at an index. -/
def swapFirst (index : Nat) : List α → List α
  | [] => []
  | first :: rest =>
      match index with
      | 0 => first :: rest
      | index + 1 =>
          match rest[index]? with
          | none => first :: rest
          | some chosen => chosen :: rest.set index first

/-- The rounds for `i` down to 1, with the choice that is made in each. -/
def shuffled (choice : Nat → Nat) : Nat → List α → List α
  | 0, items => items
  | i + 1, items =>
      match swapFirst (choice (i + 1)) items with
      | [] => []
      | first :: rest => first :: shuffled choice i rest

/-- An exchange of the first element with one behind it. -/
theorem swapFirst_middle (first chosen : α) (between rest : List α) :
    swapFirst (between.length + 1) (first :: (between ++ chosen :: rest)) =
      chosen :: (between ++ first :: rest) := by
  simp [swapFirst]

/-- An element at an index is the first one, or has a part of the list before and behind it. -/
theorem split_at {index : Nat} {chosen : α} (found : items[index]? = some chosen) :
    (∃ rest, index = 0 ∧ items = chosen :: rest) ∨
      ∃ first between rest,
        index = between.length + 1 ∧ items = first :: (between ++ chosen :: rest) := by
  cases items with
  | nil => simp at found
  | cons first rest =>
      cases index with
      | zero => exact .inl ⟨rest, rfl, by simpa using found⟩
      | succ index =>
          rw [List.getElem?_cons_succ] at found
          obtain ⟨inside, value⟩ := List.getElem?_eq_some_iff.mp found
          refine .inr ⟨first, rest.take index, rest.drop (index + 1), ?_, ?_⟩
          · rw [List.length_take, Nat.min_eq_left (Nat.le_of_lt inside)]
          · rw [← value, ← List.drop_eq_getElem_cons inside, List.take_append_drop]

/-- The chosen element comes first, and what remains are the others. -/
theorem swapFirst_eq {index : Nat} {chosen : α} (found : items[index]? = some chosen) :
    ∃ rest, swapFirst index items = chosen :: rest ∧ (chosen :: rest).Perm items := by
  rcases split_at found with ⟨rest, rfl, rfl⟩ | ⟨first, between, rest, rfl, rfl⟩
  · exact ⟨rest, rfl, List.Perm.refl _⟩
  · refine ⟨between ++ first :: rest, swapFirst_middle first chosen between rest, ?_⟩
    have inner :
        (chosen :: (between ++ first :: rest)).Perm (chosen :: first :: (between ++ rest)) :=
      List.perm_middle.cons _
    have outer :
        (first :: (between ++ chosen :: rest)).Perm (first :: chosen :: (between ++ rest)) :=
      List.perm_middle.cons _
    exact (inner.trans (List.Perm.swap _ _ _)).trans outer.symm

/-! ## Sequences of choices -/

/--
What is chosen in the rounds for a list of `n` elements: an index of at most `i` in the
round of `i`, for `i` from `n - 1` down to 1.
-/
@[ext] structure Choices (n : Nat) where
  index : Nat → Nat
  bounded : ∀ i, index i ≤ i
  beyond : ∀ i, n ≤ i → index i = 0

variable {choice other : Nat → Nat} {i : Nat}

/-- The rounds depend on the choices they make. -/
theorem shuffled_congr (same : ∀ k, 1 ≤ k → k ≤ i → choice k = other k) :
    shuffled choice i items = shuffled other i items := by
  induction i generalizing items with
  | zero => rfl
  | succ i inductionHypothesis =>
      rw [shuffled, shuffled, same (i + 1) (by omega) (Nat.le_refl _)]
      cases swapFirst (other (i + 1)) items with
      | nil => rfl
      | cons first rest =>
          have later : ∀ k, 1 ≤ k → k ≤ i → choice k = other k := fun k lower upper =>
            same k lower (by omega)
          simp only [@inductionHypothesis rest later]

/-- One round: the chosen element, then what the further rounds make of the others. -/
theorem shuffled_succ (inside : choice (i + 1) < items.length) :
    ∃ rest,
      shuffled choice (i + 1) items = items[choice (i + 1)] :: shuffled choice i rest ∧
        swapFirst (choice (i + 1)) items = items[choice (i + 1)] :: rest ∧
        (items[choice (i + 1)] :: rest).Perm items := by
  obtain ⟨rest, swapped, perm⟩ := swapFirst_eq (List.getElem?_eq_getElem inside)
  refine ⟨rest, ?_, swapped, perm⟩
  rw [shuffled, swapped]

/-- The elements stay the same ones. -/
theorem shuffled_perm (bounded : ∀ i, choice i ≤ i) (long : i < items.length) :
    (shuffled choice i items).Perm items := by
  induction i generalizing items with
  | zero => exact List.Perm.refl _
  | succ i inductionHypothesis =>
      have inside : choice (i + 1) < items.length :=
        Nat.lt_of_le_of_lt (bounded (i + 1)) long
      obtain ⟨rest, round, _, perm⟩ := shuffled_succ inside
      have length := perm.length_eq
      rw [List.length_cons] at length
      rw [round]
      exact ((@inductionHypothesis rest (by omega)).cons _).trans perm

/-- Different choices give different orders. -/
theorem shuffled_injective
    (bounded : ∀ i, choice i ≤ i)
    (otherBounded : ∀ i, other i ≤ i)
    (distinct : items.Nodup)
    (long : i < items.length)
    (same : shuffled choice i items = shuffled other i items) :
    ∀ k, 1 ≤ k → k ≤ i → choice k = other k := by
  induction i generalizing items with
  | zero => omega
  | succ i inductionHypothesis =>
      have inside : choice (i + 1) < items.length :=
        Nat.lt_of_le_of_lt (bounded (i + 1)) long
      have otherInside : other (i + 1) < items.length :=
        Nat.lt_of_le_of_lt (otherBounded (i + 1)) long
      obtain ⟨rest, round, swapped, perm⟩ := shuffled_succ inside
      obtain ⟨otherRest, otherRound, otherSwapped, _⟩ := shuffled_succ otherInside
      rw [round, otherRound] at same
      obtain ⟨firsts, later⟩ := List.cons.inj same
      -- The first element tells the choice, for no other index has it.
      have chosen : choice (i + 1) = other (i + 1) :=
        (List.Nodup.getElem_inj_iff distinct).mp firsts
      have rests : rest = otherRest := by
        simp only [← chosen, swapped, List.cons.injEq, true_and] at otherSwapped
        exact otherSwapped
      subst rests
      have length := perm.length_eq
      rw [List.length_cons] at length
      have others := @inductionHypothesis rest
        (List.nodup_cons.mp (perm.nodup_iff.mpr distinct)).2 (by omega) later
      intro k lower upper
      by_cases last : k = i + 1
      · rw [last, chosen]
      · exact others k lower (by omega)

/-- Every order comes from some choices. -/
theorem shuffled_surjective
    {order : List α}
    (perm : order.Perm items)
    (long : items.length = i + 1) :
    ∃ choice : Nat → Nat,
      (∀ k, choice k ≤ k) ∧ (∀ k, i < k → choice k = 0) ∧ shuffled choice i items = order := by
  induction i generalizing items order with
  | zero =>
      obtain ⟨only, rfl⟩ := List.length_eq_one_iff.mp long
      exact ⟨fun _ => 0, by simp, by simp, (List.perm_singleton.mp perm).symm⟩
  | succ i inductionHypothesis =>
      cases order with
      | nil => simp [← perm.length_eq] at long
      | cons first order =>
          obtain ⟨index, inside, found⟩ := List.getElem_of_mem (perm.mem_iff.mp List.mem_cons_self)
          obtain ⟨rest, swapped, kept⟩ := swapFirst_eq (List.getElem?_eq_getElem inside)
          rw [found] at swapped kept
          have length := kept.length_eq
          rw [List.length_cons] at length
          obtain ⟨choice, bounded, beyond, result⟩ :=
            @inductionHypothesis rest order (List.Perm.cons_inv (perm.trans kept.symm)) (by omega)
          refine ⟨Function.update choice (i + 1) index, ?_, ?_, ?_⟩
          · intro k
            by_cases last : k = i + 1
            · rw [last, Function.update_self]
              omega
            · rw [Function.update_of_ne last]
              exact bounded k
          · intro k above
            rw [Function.update_of_ne (by omega)]
            exact beyond k (by omega)
          · rw [shuffled, Function.update_self, swapped, ← result]
            refine congrArg (first :: ·) (shuffled_congr fun k lower upper => ?_)
            rw [Function.update_of_ne (by omega)]

/-- The order that a sequence of choices gives. -/
def order (items : List α) (choices : Choices items.length) : { order : List α // order.Perm items } :=
  ⟨shuffled choices.index (items.length - 1) items, by
    cases items with
    | nil => exact List.Perm.refl _
    | cons first rest => exact shuffled_perm choices.bounded (by simp)⟩

/-- Sequences of choices and orders of a list without duplicates correspond one to one. -/
theorem order_bijective (distinct : items.Nodup) : Function.Bijective (order items) := by
  constructor
  · intro choices others same
    have orders := congrArg Subtype.val same
    apply Choices.ext
    funext k
    by_cases beyond : items.length ≤ k
    · rw [choices.beyond k beyond, others.beyond k beyond]
    · by_cases start : k = 0
      · have left := choices.bounded k
        have right := others.bounded k
        omega
      · exact
          shuffled_injective choices.bounded others.bounded distinct (by omega) orders k
            (by omega) (by omega)
  · rintro ⟨target, perm⟩
    cases items with
    | nil =>
        refine ⟨⟨fun _ => 0, by simp, by simp⟩, Subtype.ext ?_⟩
        exact (List.perm_nil.mp perm).symm
    | cons first rest =>
        obtain ⟨choice, bounded, beyond, result⟩ :=
          @shuffled_surjective α (first :: rest) rest.length target perm rfl
        refine ⟨⟨choice, bounded, fun k above => ?_⟩, Subtype.ext result⟩
        rw [List.length_cons] at above
        exact beyond k (by omega)

end Sysprog.SelectionShuffle
