import Mathlib.Data.Nat.Basic

namespace Sysprog.FuelLoop

/-!
# Loops with a step budget

A `while` loop as repeated execution of its body, which either goes round again
or leaves the loop with a result.  The budget limits the number of rounds;
running out of it is `none`.  The total-correctness rule asks for an invariant
indexed by a bound on the rounds to come, which every round lowers, and gives a
result for every budget above that bound.  The same invariant speaks about everything
that is observed on the way.  The partial-correctness rule needs no bound and speaks
about the result, if there is one.
-/

variable {State Result : Type}

/-- What one execution of a loop body decides. -/
inductive Round (State Result : Type) where
  | again (state : State)
  | leave (result : Result)

/-- Run `body` until it leaves, for at most `fuel` rounds. -/
def loop (body : State → Round State Result) : Nat → State → Option Result
  | 0, _ => none
  | fuel + 1, state =>
      match body state with
      | .again next => loop body fuel next
      | .leave result => some result

/-- A budget above a number of rounds allows a round. -/
theorem exists_round {needed fuel : Nat} (enough : needed < fuel) :
    ∃ rounds, fuel = rounds + 1 :=
  Nat.exists_eq_add_one.mpr (Nat.zero_lt_of_lt enough)

/-- A larger budget does not change the result. -/
theorem loop_more
    {body : State → Round State Result}
    {fuel larger : Nat}
    {start : State}
    {result : Result}
    (returned : loop body fuel start = some result)
    (within : fuel ≤ larger) :
    loop body larger start = some result := by
  induction fuel generalizing start larger with
  | zero =>
      simp [loop] at returned
  | succ fuel inductionHypothesis =>
      obtain ⟨rounds, rfl⟩ := exists_round within
      rw [loop] at returned ⊢
      cases decision : body start with
      | again next =>
          rw [decision] at returned
          exact inductionHypothesis returned (Nat.le_of_succ_le_succ within)
      | leave left =>
          rw [decision] at returned
          exact returned

/-- A body that does the same wherever the other one has not given up returns the same. -/
theorem loop_refines
    {body larger : State → Round State (Option Result)}
    (refines : ∀ state, body state ≠ .leave none → larger state = body state)
    {fuel : Nat}
    {start : State}
    {result : Result}
    (returned : loop body fuel start = some (some result)) :
    loop larger fuel start = some (some result) := by
  induction fuel generalizing start with
  | zero =>
      simp [loop] at returned
  | succ fuel inductionHypothesis =>
      rw [loop] at returned ⊢
      have same : larger start = body start := by
        apply refines
        intro gaveUp
        rw [gaveUp] at returned
        simp at returned
      rw [same]
      cases decision : body start with
      | again next =>
          rw [decision] at returned
          exact inductionHypothesis returned
      | leave left =>
          rw [decision] at returned
          exact returned

/-- What a round has to achieve when at most `bound` rounds may follow. -/
def RoundOk
    (invariant : Nat → State → Prop)
    (post : Result → Prop)
    (bound : Nat) : Round State Result → Prop
  | .again next => ∃ remaining, remaining < bound ∧ invariant remaining next
  | .leave result => post result

/-- A round may be given a larger bound. -/
theorem RoundOk.weaken
    {invariant : Nat → State → Prop}
    {post : Result → Prop}
    {bound larger : Nat}
    {round : Round State Result}
    (ok : RoundOk invariant post bound round)
    (within : bound ≤ larger) :
    RoundOk invariant post larger round := by
  cases round with
  | again next =>
      obtain ⟨remaining, lower, kept⟩ := ok
      exact ⟨remaining, by omega, kept⟩
  | leave result =>
      exact ok

/--
Total correctness: with an invariant indexed by a bound that every further round
lowers, every budget above the bound yields a result that satisfies the
postcondition.
-/
theorem loop_correct
    {body : State → Round State Result}
    (invariant : Nat → State → Prop)
    (post : Result → Prop)
    (round :
      ∀ bound state,
        invariant bound state →
        RoundOk invariant post bound (body state))
    {bound : Nat}
    {start : State}
    (initially : invariant bound start)
    {fuel : Nat}
    (enough : bound < fuel) :
    ∃ result, loop body fuel start = some result ∧ post result := by
  induction fuel generalizing bound start with
  | zero =>
      omega
  | succ fuel inductionHypothesis =>
      have here := round bound start initially
      cases decision : body start with
      | again next =>
          rw [decision] at here
          obtain ⟨remaining, lower, kept⟩ := here
          obtain ⟨result, returned, holds⟩ :=
            inductionHypothesis kept (by omega)
          exact ⟨result, by simp only [loop, decision, returned], holds⟩
      | leave result =>
          rw [decision] at here
          exact ⟨result, by simp only [loop, decision], here⟩

/-- What can be observed of a run: of the state at the start of each round, in order. -/
def observed
    {Item : Type}
    (observe : State → List Item)
    (body : State → Round State Result) : Nat → State → List Item
  | 0, _ => []
  | fuel + 1, state =>
      observe state ++
        match body state with
        | .again next => observed observe body fuel next
        | .leave _ => []

/-- What the invariant says of every single state holds of all that is observed. -/
theorem mem_observed
    {Item : Type}
    {observe : State → List Item}
    {body : State → Round State Result}
    (invariant : Nat → State → Prop)
    (post : Result → Prop)
    (allowed : Item → Prop)
    (round :
      ∀ bound state,
        invariant bound state →
        RoundOk invariant post bound (body state))
    (shown :
      ∀ bound state,
        invariant bound state →
        ∀ item ∈ observe state, allowed item)
    {bound : Nat}
    {start : State}
    (initially : invariant bound start)
    (fuel : Nat) :
    ∀ item ∈ observed observe body fuel start, allowed item := by
  induction fuel generalizing bound start with
  | zero =>
      simp [observed]
  | succ fuel inductionHypothesis =>
      intro item member
      have here := round bound start initially
      rw [observed] at member
      rcases List.mem_append.mp member with first | later
      · exact shown bound start initially item first
      · cases decision : body start with
        | again next =>
            rw [decision] at here later
            obtain ⟨remaining, _, kept⟩ := here
            exact inductionHypothesis kept item later
        | leave result =>
            rw [decision] at later
            simp at later

/-- What a round has to keep when the number of rounds is left open. -/
def RoundKeeps
    (invariant : State → Prop)
    (post : Result → Prop) : Round State Result → Prop
  | .again next => invariant next
  | .leave result => post result

/-- Partial correctness: what every round keeps holds of the result of any budget. -/
theorem loop_returns_post
    {body : State → Round State Result}
    (invariant : State → Prop)
    (post : Result → Prop)
    (round : ∀ state, invariant state → RoundKeeps invariant post (body state))
    {start : State}
    (initially : invariant start)
    {fuel : Nat}
    {result : Result}
    (returned : loop body fuel start = some result) :
    post result := by
  induction fuel generalizing start with
  | zero =>
      simp [loop] at returned
  | succ fuel inductionHypothesis =>
      have here := round start initially
      rw [loop] at returned
      cases decision : body start with
      | again next =>
          rw [decision] at here returned
          exact inductionHypothesis here returned
      | leave left =>
          rw [decision] at here returned
          obtain rfl := Option.some.inj returned
          exact here

end Sysprog.FuelLoop
