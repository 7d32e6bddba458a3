import Mathlib.Data.List.Basic
import Mathlib.Data.List.Induction

namespace Sysprog.Execution

/-!
# Labelled runs and their invariants

A component is stepped by a labelled relation.  This module records finite
runs of such a relation and the induction rules every component uses: what a
single step keeps, a whole run keeps.  It depends on no component.
-/

variable {State Label : Type}

/-- A label of a list is its last one, or one of the list without its last. -/
private theorem split_concat
    {labels earlier later : List Label}
    {last label : Label}
    (shape : labels ++ [last] = earlier ++ label :: later) :
    (labels = earlier ∧ last = label ∧ later = []) ∨
      ∃ front, labels = earlier ++ label :: front := by
  rcases later.eq_nil_or_concat with rfl | ⟨front, final, rfl⟩
  · obtain ⟨rfl, sameLabel⟩ := List.append_inj' shape rfl
    exact Or.inl ⟨rfl, by simpa using sameLabel, rfl⟩
  · rw [List.concat_eq_append, ← List.cons_append, ← List.append_assoc] at shape
    exact Or.inr ⟨front, (List.append_inj' shape rfl).1⟩

/-- A finite run of `step` from `start`, grown one step at a time at its end. -/
inductive Run
    (step : State → Label → State → Prop)
    (start : State) :
    List Label → State → Prop where
  | stop :
      Run step start [] start
  | extend
      {labels : List Label}
      {before after : State}
      {label : Label}
      (earlier : Run step start labels before)
      (last : step before label after) :
      Run step start (labels ++ [label]) after

/-- A state is reachable when some run ends in it. -/
def Reachable
    (step : State → Label → State → Prop)
    (start final : State) : Prop :=
  ∃ labels, Run step start labels final

namespace Run

variable {step : State → Label → State → Prop} {start final : State} {labels : List Label}

/-- A property of the start that every step keeps holds at the end of every run. -/
theorem invariant
    {property : State → Prop}
    (run : Run step start labels final)
    (initially : property start)
    (preserved :
      ∀ {before label after},
        property before →
        step before label after →
        property after) :
    property final := by
  induction run with
  | stop =>
      exact initially
  | extend earlier last inductionHypothesis =>
      exact preserved inductionHypothesis last

/--
The same rule for a property that also speaks about the labels taken so far.
This is how a run is compared with a function of its history.
-/
theorem history
    {property : List Label → State → Prop}
    (run : Run step start labels final)
    (initially : property [] start)
    (preserved :
      ∀ {earlier before label after},
        property earlier before →
        step before label after →
        property (earlier ++ [label]) after) :
    property labels final := by
  induction run with
  | stop =>
      exact initially
  | extend earlier last inductionHypothesis =>
      exact preserved inductionHypothesis last

/-- A run without labels stays where it starts. -/
theorem eq_of_nil (run : Run step start [] final) : final = start := by
  generalize noLabels : ([] : List Label) = labels at run
  cases run with
  | stop => rfl
  | extend _ _ => simp at noLabels

/-- The last label of a run was taken by its last step. -/
theorem of_concat
    {label : Label}
    (run : Run step start (labels ++ [label]) final) :
    ∃ before, Run step start labels before ∧ step before label final := by
  generalize shape : labels ++ [label] = all at run
  cases run with
  | stop => simp at shape
  | @extend earlier before _ last run taken =>
      obtain ⟨rfl, same⟩ := List.append_inj' shape rfl
      obtain rfl : label = last := by simpa using same
      exact ⟨before, run, taken⟩

/-- A run goes on where another one ended. -/
theorem append
    {later : List Label}
    {middle : State}
    (run : Run step start labels middle)
    (onward : Run step middle later final) :
    Run step start (labels ++ later) final := by
  induction onward with
  | stop =>
      rw [List.append_nil]
      exact run
  | extend _ last inductionHypothesis =>
      rw [← List.append_assoc]
      exact inductionHypothesis.extend last

/-- Every label of a run was taken by a step from the state the labels before it led to. -/
theorem at_label
    {earlier later : List Label}
    {label : Label}
    (run : Run step start labels final)
    (shape : labels = earlier ++ label :: later) :
    ∃ before after, Run step start earlier before ∧ step before label after := by
  induction run generalizing later with
  | stop =>
      simp at shape
  | @extend labels before after _ run last inductionHypothesis =>
      rcases split_concat shape with ⟨rfl, rfl, _⟩ | ⟨front, shorter⟩
      · exact ⟨before, after, run, last⟩
      · exact inductionHypothesis shorter

/-- A step relation that is a function has one run for each list of labels. -/
theorem unique
    {other : State}
    (run : Run step start labels final)
    (again : Run step start labels other)
    (functional :
      ∀ {before label first second},
        step before label first →
        step before label second →
        first = second) :
    final = other := by
  induction run generalizing other with
  | stop =>
      exact again.eq_of_nil.symm
  | extend run last inductionHypothesis =>
      obtain ⟨before, againRun, againLast⟩ := again.of_concat
      obtain rfl := inductionHypothesis againRun
      exact functional last againLast

/-- What a step function computes along a list of labels is a run. -/
theorem of_foldlM
    {next : State → Label → Option State}
    (agrees :
      ∀ {before label after}, next before label = some after → step before label after)
    (computed : labels.foldlM next start = some final) :
    Run step start labels final := by
  induction labels using List.reverseRecOn generalizing final with
  | nil =>
      obtain rfl := Option.some.inj computed
      exact .stop
  | append_singleton earlier label inductionHypothesis =>
      rw [List.foldlM_append] at computed
      obtain ⟨before, first, last⟩ := Option.bind_eq_some_iff.mp computed
      rw [List.foldlM_cons] at last
      obtain ⟨after, taken, same⟩ := Option.bind_eq_some_iff.mp last
      obtain rfl := Option.some.inj same
      exact .extend (inductionHypothesis first) (agrees taken)

/-- A run of a step function is computed by it. -/
theorem foldlM_eq
    {next : State → Label → Option State}
    (agrees :
      ∀ {before label after}, step before label after → next before label = some after)
    (run : Run step start labels final) :
    labels.foldlM next start = some final := by
  induction run with
  | stop =>
      rfl
  | extend earlier last inductionHypothesis =>
      rw [List.foldlM_append, inductionHypothesis]
      simp [agrees last]

end Run

/-- A test that a step function passes at every label it takes. -/
def checkSteps
    (next : State → Label → Option State)
    (test : State → Label → Bool) : State → List Label → Bool
  | _, [] => true
  | state, label :: rest =>
      test state label && (next state label).all fun after => checkSteps next test after rest

/-- A test of all labels tests the one behind any of them. -/
theorem test_of_checkSteps
    {next : State → Label → Option State}
    {test : State → Label → Bool}
    {start before : State}
    {earlier later : List Label}
    {label : Label}
    (checked : checkSteps next test start (earlier ++ label :: later) = true)
    (computed : earlier.foldlM next start = some before) :
    test before label = true := by
  induction earlier generalizing start with
  | nil =>
      obtain rfl := Option.some.inj computed
      exact (Bool.and_eq_true_iff.mp checked).1
  | cons first rest inductionHypothesis =>
      rw [List.foldlM_cons] at computed
      obtain ⟨after, taken, onward⟩ := Option.bind_eq_some_iff.mp computed
      have behind := (Bool.and_eq_true_iff.mp checked).2
      rw [taken] at behind
      exact inductionHypothesis behind onward

namespace Reachable

variable {step : State → Label → State → Prop} {start final : State}

/-- Every reachable state satisfies an invariant. -/
theorem invariant
    {property : State → Prop}
    (reachable : Reachable step start final)
    (initially : property start)
    (preserved :
      ∀ {before label after},
        property before →
        step before label after →
        property after) :
    property final := by
  obtain ⟨labels, run⟩ := reachable
  exact run.invariant initially preserved

/-- The start of a system is reachable. -/
theorem refl : Reachable step start start :=
  ⟨[], .stop⟩

/-- A step from a reachable state leads to a reachable state. -/
theorem next
    {before after : State}
    {label : Label}
    (reachable : Reachable step start before)
    (last : step before label after) :
    Reachable step start after := by
  obtain ⟨labels, run⟩ := reachable
  exact ⟨labels ++ [label], run.extend last⟩

/-- What is reachable from a reachable state is reachable. -/
theorem trans
    {middle : State}
    (first : Reachable step start middle)
    (second : Reachable step middle final) :
    Reachable step start final :=
  second.invariant first fun earlier last => earlier.next last

end Reachable

/-- Every step a run over `labels` takes from `start` satisfies `property`. -/
def StepsSatisfy
    (step : State → Label → State → Prop)
    (start : State)
    (labels : List Label)
    (property : State → Label → State → Prop) : Prop :=
  ∀ earlier label later before after,
    labels = earlier ++ label :: later →
    Run step start earlier before →
    step before label after →
    property before label after

namespace StepsSatisfy

variable
  {step property target : State → Label → State → Prop}
  {start : State}
  {labels : List Label}

/-- What holds of every step of a run holds of every step of its prefixes. -/
theorem of_append
    {first second : List Label}
    (steps : StepsSatisfy step start (first ++ second) property) :
    StepsSatisfy step start first property := by
  intro earlier label later before after shape run last
  apply steps earlier label (later ++ second) before after _ run last
  rw [shape]
  simp

/-- What every label of a run brings with it holds of its steps. -/
theorem of_labels
    (each : ∀ label ∈ labels, ∀ before after, property before label after) :
    StepsSatisfy step start labels property := by
  intro earlier label later before after shape _ _
  exact each label (by rw [shape]; simp) before after

/-- A run of at most one step is judged by the first step alone. -/
theorem single
    {label : Label}
    (first : ∀ after, step start label after → property start label after) :
    StepsSatisfy step start [label] property := by
  intro earlier taken later before after shape run last
  have noneBefore : earlier = [] := by
    cases earlier with
    | nil => rfl
    | cons _ _ => simp at shape
  subst earlier
  obtain ⟨rfl, _⟩ : label = taken ∧ later = [] := by
    simpa using shape
  obtain rfl := run.eq_of_nil
  exact first after last

/-- A longer run is judged by the shorter one and its last step. -/
theorem concat
    {label : Label}
    (steps : StepsSatisfy step start labels property)
    (last :
      ∀ before after,
        Run step start labels before →
        step before label after →
        property before label after) :
    StepsSatisfy step start (labels ++ [label]) property := by
  intro earlier taken later before after shape run stepTaken
  rcases split_concat shape with ⟨rfl, rfl, _⟩ | ⟨front, shorter⟩
  · exact last before after run stepTaken
  · exact steps earlier taken front before after shorter run stepTaken

/-- Where the labels lead to one state only, the last step is judged there. -/
theorem concat_at
    {label : Label}
    {final : State}
    (steps : StepsSatisfy step start labels property)
    (run : Run step start labels final)
    (functional :
      ∀ {before label first second},
        step before label first →
        step before label second →
        first = second)
    (last : ∀ after, step final label after → property final label after) :
    StepsSatisfy step start (labels ++ [label]) property := by
  refine steps.concat ?_
  intro before after again taken
  obtain rfl := run.unique again functional
  exact last after taken

/-- An invariant kept by the steps of a given kind holds after a run of such steps. -/
theorem invariant
    {kept : State → Prop}
    {final : State}
    (steps : StepsSatisfy step start labels property)
    (run : Run step start labels final)
    (initially : kept start)
    (preserved :
      ∀ {before label after},
        kept before →
        step before label after →
        property before label after →
        kept after) :
    kept final := by
  induction run with
  | stop =>
      exact initially
  | @extend labels before after label earlier last inductionHypothesis =>
      have here : property before label after :=
        steps labels label [] before after rfl earlier last
      exact preserved (inductionHypothesis steps.of_append) last here

/-- Exchange one property of the steps for another that an invariant supplies. -/
theorem mono
    {kept : State → Prop}
    (steps : StepsSatisfy step start labels property)
    (initially : kept start)
    (preserved :
      ∀ {before label after},
        kept before →
        step before label after →
        property before label after →
        kept after)
    (exchange :
      ∀ {before label after},
        kept before →
        step before label after →
        property before label after →
        target before label after) :
    StepsSatisfy step start labels target := by
  intro earlier label later before after shape run last
  have leading : StepsSatisfy step start earlier property := by
    rw [shape] at steps
    exact steps.of_append
  exact exchange (leading.invariant run initially preserved) last
    (steps earlier label later before after shape run last)

/-- The steps of a run of a step function can be tested. -/
theorem of_check
    {next : State → Label → Option State}
    {test : State → Label → Bool}
    (agrees :
      ∀ {before label after}, step before label after → next before label = some after)
    (sound : ∀ {before label after}, test before label = true → property before label after)
    (checked : checkSteps next test start labels = true) :
    StepsSatisfy step start labels property := by
  intro earlier label later before after shape run _
  rw [shape] at checked
  exact sound (test_of_checkSteps checked (run.foldlM_eq agrees))

end StepsSatisfy

end Sysprog.Execution
