import Mathlib.Algebra.BigOperators.Group.Finset.Piecewise
import Mathlib.Algebra.Order.BigOperators.Group.Finset
import Mathlib.Algebra.Ring.Nat
import Sysprog.Execution

namespace Sysprog.Execution

/-!
# Runs that use up a potential

Every step of a run pays from a potential, which some steps raise again.  Where several
parties take the steps, the potential is the sum of what each of them still has to do.
This module depends on no component.
-/

variable {State Label Party : Type}

/--
Where every step pays what it spends from a potential, apart from what it gains, a run spends
no more than the potential it starts with and what it gains.
-/
theorem Run.amortised
    {step : State → Label → State → Prop}
    {start final : State}
    {labels : List Label}
    {property : State → Prop}
    {potential : State → Nat}
    {spent gained : Label → Nat}
    (run : Run step start labels final)
    (initially : property start)
    (preserved :
      ∀ {before label after},
        property before →
        step before label after →
        property after ∧
          potential after + spent label ≤ potential before + gained label) :
    property final ∧
      potential final + (labels.map spent).sum ≤ potential start + (labels.map gained).sum := by
  induction run with
  | stop =>
      exact ⟨initially, Nat.le_refl _⟩
  | extend earlier last inductionHypothesis =>
      obtain ⟨held, within⟩ := inductionHypothesis
      obtain ⟨kept, paid⟩ := preserved held last
      refine ⟨kept, ?_⟩
      simp only [List.map_append, List.map_cons, List.map_nil, List.sum_append, List.sum_cons,
        List.sum_nil]
      omega

/-- One party pays, and at most one other party gets one more step to do. -/
theorem sum_of_step
    [Fintype Party]
    [DecidableEq Party]
    {before after : Party → Nat}
    {spent : Nat}
    (mover : Party)
    (woken : Option Party)
    (each :
      ∀ party,
        after party + (if party = mover then spent else 0) ≤
          before party + if woken = some party then 1 else 0) :
    ∑ party, after party + spent ≤ ∑ party, before party + if woken = none then 0 else 1 := by
  have summed := Finset.sum_le_sum fun party (_ : party ∈ Finset.univ) => each party
  rw [Finset.sum_add_distrib, Finset.sum_add_distrib, Finset.sum_ite_eq',
    if_pos (Finset.mem_univ _)] at summed
  cases woken with
  | none =>
      simpa using summed
  | some woken =>
      simpa [Option.some.injEq] using summed

end Sysprog.Execution
