import Sysprog.EvWatch

namespace Sysprog.EventLoop

open Execution

/-!
# The counter of the event loop

`ev->entries` goes up and down with the interest list, except where `ev_entry_free` closes a
descriptor that is watched: of a timer that was not deleted, or, for a timer that was never
armed, whatever is open under the number 0.  From then on the counter is too high.
-/

/--
The counter is the number of watched descriptors: it is above zero whenever `ev_del` can
succeed, and `ev_loop` leaves its loop exactly when nothing is watched.
-/
structure InStep (state : State) : Prop where
  counted : state.entries = state.kernel.interest.length
  noWrap : ∀ fd, state.kernel.Registered fd → 0 < state.entries
  leaves : ¬ state.entries > 0 ↔ state.kernel.interest = []

/-- The counter alone decides. -/
theorem InStep.of_counted
    {state : State}
    (counted : state.entries = state.kernel.interest.length) :
    InStep state where
  counted := counted
  noWrap := by
    intro fd registered
    rw [counted]
    exact List.length_pos_of_mem (List.mem_map.mp registered).choose_spec.1
  leaves := by
    rw [counted, gt_iff_lt, List.length_pos_iff, not_not]

/-- The timer that `ev_entry_free` frees has a field `fd` with the number of a watched descriptor. -/
def ClosesWatched (before : State) : Call → Prop
  | .entryFree id =>
      ∃ entry, before.memory id = some entry ∧ entry.kind ≠ .raw ∧
        before.kernel.Registered entry.fd
  | _ => False

/-- One more entry. -/
theorem counted_add {length : Nat} (bound : length + 1 ≤ 2 ^ 31) :
    MachineWord.add length 1 = length + 1 :=
  MachineWord.add_of_lt (Nat.lt_of_le_of_lt bound (by decide))

/-- One entry less. -/
theorem counted_sub {length : Nat} (bound : length + 1 ≤ 2 ^ 31) :
    MachineWord.sub (length + 1) 1 = length :=
  MachineWord.sub_of_le (Nat.lt_of_le_of_lt bound (by decide)) (by omega)

/-- Closing a watched descriptor is not counted. -/
theorem not_counted_of_closes
    {before after : State}
    {call : Call}
    (counted : before.entries = before.kernel.interest.length)
    (taken : Step before call after)
    (closes : ClosesWatched before call) :
    after.entries ≠ after.kernel.interest.length := by
  cases call with
  | entryFree id =>
      obtain ⟨entry, present, timer, registered⟩ := closes
      obtain ⟨entry', present', ⟨raw, _⟩ | ⟨_, rfl⟩⟩ := evEntryFree_cases taken
      · rw [present] at present'
        obtain rfl := Option.some.inj present'
        exact absurd raw timer
      · rw [present] at present'
        obtain rfl := Option.some.inj present'
        have shorter := DescriptorTable.Table.length_filter_of_registered registered
        have same : (before.close entry.fd).entries = before.entries := rfl
        change (before.close entry.fd).entries ≠ (before.kernel.close entry.fd).interest.length
        rw [same, counted, DescriptorTable.Table.close_interest]
        omega
  | _ => exact absurd closes (by simp [ClosesWatched])

/-- Every other call keeps the counter right. -/
theorem counted_of_not_closes
    {before after : State}
    {call : Call}
    (counted : before.entries = before.kernel.interest.length)
    (taken : Step before call after)
    (spared : ¬ ClosesWatched before call) :
    after.entries = after.kernel.interest.length := by
  have bound := @DescriptorTable.Table.length_interest_le _ _ after.kernel
  have boundBefore := @DescriptorTable.Table.length_interest_le _ _ before.kernel
  cases taken.effect with
  | same watch events =>
      rw [watch.entries, watch.interest, counted]
  | added added events =>
      obtain ⟨fd, interest⟩ := added.interest
      rw [interest, List.length_append, List.length_singleton] at bound ⊢
      rw [added.entries, counted, counted_add bound]
  | deleted which deleted events =>
      have shorter := DescriptorTable.Table.length_filter_of_registered deleted.registered
      rw [deleted.entries, deleted.interest, counted, ← shorter]
      exact counted_sub (by omega)
  | @freed id entry present timer closed events =>
      have unwatched : ¬ before.kernel.Registered entry.fd :=
        fun registered => spared ⟨entry, present, timer, registered⟩
      rw [closed.entries, closed.interest, counted,
        DescriptorTable.Table.filter_of_not_registered unwatched]
  | waited listed watch events =>
      rw [watch.entries, watch.interest, counted]

/--
In every state that a run reaches the counter is the number of watched descriptors, if and
only if no call of the run frees a timer whose field `fd` is the number of a watched
descriptor.
-/
theorem inStep_iff (calls : List Call) :
    StepsSatisfy Step State.initial calls (fun _ _ after => InStep after) ↔
      StepsSatisfy Step State.initial calls (fun before call _ => ¬ ClosesWatched before call) := by
  constructor
  · intro inStep
    refine inStep.mono (.of_counted rfl) (fun _ _ after => after) ?_
    intro before call after kept taken right closes
    exact not_counted_of_closes kept.counted taken closes right.counted
  · intro neverCloses
    have keeps {before call after} (kept : InStep before) (taken : Step before call after)
        (spared : ¬ ClosesWatched before call) : InStep after :=
      .of_counted (counted_of_not_closes kept.counted taken spared)
    exact neverCloses.mono (.of_counted rfl) keeps keeps

/--
The program watches its standard input.  A timer that cannot be added is freed, as the
caller of `ev_add` is asked to do.
-/
def sampleStdin : List Call :=
  [.opened 0, .entryNewRaw true 0, .add 0 (sampleAnswers 0), .timerOneshotNew true,
    .add 1 { sampleAnswers 5 with created := none }, .entryFree 1]

/-- Nothing is watched any more, and `ev_loop` would wait. -/
theorem freed_timer_uncounted :
    ∃ final,
      Run Step State.initial sampleStdin final ∧
        final.kernel.interest = [] ∧
        final.entries = 1 ∧
        ¬ InStep final := by
  have run : Run Step State.initial sampleStdin _ := .of_foldlM id rfl
  refine ⟨_, run, rfl, rfl, ?_⟩
  intro inStep
  exact absurd inStep.counted (by decide)

end Sysprog.EventLoop
