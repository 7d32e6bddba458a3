import Sysprog.EvWatch

namespace Sysprog.EventLoop

open Execution

/-!
# Events of deleted entries

`ev_loop` keeps the pointers that `epoll_wait` returned until it comes to them.  An entry that
is deleted in between is still looked at, and so is one that a second descriptor is watched
for.  Where every deletion finds neither, no deleted entry is looked at again.

The deletion in `ev_process_timer_oneshot` counts from the end of the callback on, which
belongs to the same look at the entry.
-/

/-- The entry whose memory `ev_loop` reads, and whose callback it calls, when it goes on. -/
def touches (state : State) : Option Nat :=
  state.events.head?

/--
An entry whose `ev_del` returns 0 has no later event in the batch, and no other descriptor
is watched for it.
-/
def DeletesSettled (before : State) (call : Call) (_ : State) : Prop :=
  ∀ id ∈ deletes before call,
    ∀ entry ∈ before.memory id,
      before.kernel.Registered entry.fd →
        id ∉ remaining before call ∧
          ∀ watched ∈ before.kernel.interest, watched.2 = id → watched.1 = entry.fd

instance (before : State) (call : Call) (after : State) :
    Decidable (DeletesSettled before call after) :=
  inferInstanceAs (Decidable (∀ _ ∈ _, ∀ _ ∈ _, _))

/-- No event of a deleted entry is left, and none can come. -/
def Quiet (state : State) : Prop :=
  ∀ id, state.deleted id = true →
    id ∉ state.events ∧ ∀ watched ∈ state.kernel.interest, watched.2 ≠ id

/-- The rest of the batch is part of it. -/
theorem mem_of_remaining
    {state : State}
    {call : Call}
    {id : Nat}
    (member : id ∈ remaining state call) :
    id ∈ state.events := by
  cases call with
  | dispatch readable => exact List.mem_of_mem_tail member
  | _ => exact member

/-- A call that finds what it deletes settled keeps deleted entries quiet. -/
theorem Quiet.step
    {before after : State}
    {call : Call}
    (quiet : Quiet before)
    (taken : Step before call after)
    (settled : DeletesSettled before call after) :
    Quiet after := by
  intro id gone
  cases taken.effect with
  | same watch events =>
      rw [watch.deleted] at gone
      obtain ⟨notLeft, notWatched⟩ := quiet id gone
      rw [events, watch.interest]
      exact ⟨fun member => notLeft (mem_of_remaining member), notWatched⟩
  | @added new _ added events =>
      rw [added.deleted] at gone
      have another : id ≠ new := by
        rintro rfl
        simp at gone
      rw [Function.update_of_ne another] at gone
      obtain ⟨notLeft, notWatched⟩ := quiet id gone
      obtain ⟨fd, interest⟩ := added.interest
      rw [events, interest]
      refine ⟨notLeft, ?_⟩
      intro watched member
      rcases List.mem_append.mp member with old | last
      · exact notWatched watched old
      · rw [List.mem_singleton.mp last]
        exact another.symm
  | @deleted _ old entry which deleted events =>
      rw [events, deleted.interest]
      by_cases same : id = old
      · subst same
        obtain ⟨notLeft, onlyOne⟩ :=
          settled id which entry deleted.present deleted.registered
        refine ⟨notLeft, ?_⟩
        intro watched member ofId
        obtain ⟨listed, notFd⟩ := List.mem_filter.mp member
        have fd := onlyOne watched listed ofId
        simp [fd] at notFd
      · rw [deleted.deleted, Function.update_of_ne same] at gone
        obtain ⟨notLeft, notWatched⟩ := quiet id gone
        refine ⟨fun member => notLeft (mem_of_remaining member), ?_⟩
        intro watched member
        exact notWatched watched (List.mem_of_mem_filter member)
  | freed _ _ closed events =>
      rw [closed.deleted] at gone
      obtain ⟨notLeft, notWatched⟩ := quiet id gone
      rw [events, closed.interest]
      exact ⟨notLeft, fun watched member => notWatched watched (List.mem_of_mem_filter member)⟩
  | waited listed watch events =>
      rw [watch.deleted] at gone
      obtain ⟨_, notWatched⟩ := quiet id gone
      rw [events, watch.interest]
      refine ⟨?_, notWatched⟩
      intro member
      obtain ⟨event, ready, ofId⟩ := List.mem_map.mp member
      exact notWatched event (listed event ready) ofId

/-- An `ev_del` that can succeed deletes the entry. -/
theorem evDel_deletes
    {before after : State}
    {id : Nat}
    {ret : Int}
    {entry : EvEntry}
    (present : before.memory id = some entry)
    (registered : before.kernel.Registered entry.fd)
    (called : evDel before id = some (ret, after)) :
    Deleted before id entry after ∧ after.events = before.events := by
  obtain ⟨entry', present', ⟨_, failed, _⟩ | ⟨kernel, _, taken, rfl⟩⟩ := evDel_cases called
  · rw [present] at present'
    obtain rfl := Option.some.inj present'
    exact absurd registered failed
  · rw [present] at present'
    obtain rfl := Option.some.inj present'
    obtain ⟨_, _, interest⟩ := DescriptorTable.Table.delete?_spec taken
    exact ⟨⟨present, registered, interest, rfl, rfl⟩, rfl⟩

/-- A call that can delete an entry does so. -/
theorem Step.deletes
    {before after : State}
    {call : Call}
    {id : Nat}
    {entry : EvEntry}
    (taken : Step before call after)
    (which : EventLoop.deletes before call = some id)
    (present : before.memory id = some entry)
    (registered : before.kernel.Registered entry.fd) :
    Deleted before id entry after ∧ after.events = remaining before call := by
  cases call with
  | del other =>
      obtain rfl := Option.some.inj which
      obtain ⟨⟨ret, result⟩, called, rfl⟩ := Option.map_eq_some_iff.mp taken
      exact evDel_deletes present registered called
  | timerCancel other =>
      obtain rfl := Option.some.inj which
      obtain ⟨⟨ret, result⟩, called, rfl⟩ := Option.map_eq_some_iff.mp taken
      rw [evTimerCancel_eq] at called
      exact evDel_deletes present registered called
  | dispatch readable =>
      obtain ⟨next, rest, former, batch, there, done⟩ := dispatch_cases taken
      simp only [EventLoop.deletes, batch, List.head?_cons, Option.filter_eq_some_iff,
        Option.some.injEq] at which
      obtain ⟨rfl, isOneshot⟩ := which
      rw [present] at there
      obtain rfl := Option.some.inj there
      rcases done with ⟨notOneshot, _⟩ | ⟨_, ret, called⟩
      · exact absurd (by simpa [present] using isOneshot) notOneshot
      · obtain ⟨deleted, events⟩ :=
          @evDel_deletes { before with events := rest } _ _ _ _ present registered called
        obtain ⟨_, _, interest, entries, gone⟩ := deleted
        refine ⟨⟨present, registered, interest, entries, gone⟩, ?_⟩
        simpa [remaining, batch] using events
  | _ => simp [EventLoop.deletes] at which

/-- What a call deletes was settled if it is quiet behind the call. -/
theorem Quiet.settled
    {before after : State}
    {call : Call}
    (taken : Step before call after)
    (quiet : Quiet after) :
    DeletesSettled before call after := by
  intro id which entry present registered
  obtain ⟨deleted, events⟩ := taken.deletes which present registered
  obtain ⟨notLeft, notWatched⟩ := quiet id (by simp [deleted.deleted])
  rw [events] at notLeft
  refine ⟨notLeft, ?_⟩
  intro watched listed ofId
  by_contra another
  refine notWatched watched ?_ ofId
  rw [deleted.interest]
  exact List.mem_filter.mpr ⟨listed, by simpa using another⟩

/-- Nothing is deleted at first. -/
theorem Quiet.initial : Quiet State.initial := by
  intro id gone
  simp [State.initial] at gone

/-- Deleted entries are quiet in every state of a run exactly if its deletions are settled. -/
theorem quiet_iff_settled (calls : List Call) :
    StepsSatisfy Step State.initial calls (fun _ _ after => Quiet after) ↔
      StepsSatisfy Step State.initial calls DeletesSettled :=
  ⟨fun quiet => quiet.mono .initial (fun _ _ after => after) fun _ => Quiet.settled,
    fun settled => settled.mono .initial Quiet.step Quiet.step⟩

/-- Deleted entries stay quiet over a run whose deletions are all settled. -/
theorem Quiet.run
    {calls : List Call}
    {final : State}
    (run : Run Step State.initial calls final)
    (settled : StepsSatisfy Step State.initial calls DeletesSettled) :
    Quiet final :=
  settled.invariant run .initial Quiet.step

/--
Where every deletion finds no later event of its entry in the batch, and no other descriptor
watched for it, `ev_loop` never looks at a deleted entry again.
-/
theorem deleted_untouched
    {calls : List Call}
    {final : State}
    (run : Run Step State.initial calls final)
    (settled : StepsSatisfy Step State.initial calls DeletesSettled) :
    ∀ id, touches final = some id → final.deleted id = false := by
  intro id next
  have member : id ∈ final.events := List.mem_of_mem_head? next
  cases gone : final.deleted id with
  | false => rfl
  | true => exact absurd member (Quiet.run run settled id gone).1

/-- Two timers are added. -/
def sampleTimers : List Call :=
  [.timerOneshotNew true, .add 0 (sampleAnswers 5), .timerOneshotNew true,
    .add 1 (sampleAnswers 6)]

/-- The second one is ready alone, and its callback cancels and frees the first one. -/
def sampleCancel : List Call :=
  sampleTimers ++ [.wait [(6, 1)], .dispatch true, .timerCancel 0, .entryFree 0]

theorem deleted_untouched_sampleCancel :
    ∃ final,
      Run Step State.initial sampleCancel final ∧
        final.deleted 0 = true ∧
        ∀ id, touches final = some id → final.deleted id = false := by
  have run : Run Step State.initial sampleCancel _ := .of_foldlM id rfl
  refine ⟨_, run, rfl, deleted_untouched run ?_⟩
  have checked :
      checkSteps perform (fun before call => decide (DeletesSettled before call before))
        State.initial sampleCancel = true := by decide
  exact StepsSatisfy.of_check id of_decide_eq_true checked

/-- Both timers are ready in one batch, and the callback of the second one does the same. -/
def sampleStale : List Call :=
  sampleTimers ++ [.wait [(6, 1), (5, 0)], .dispatch true, .timerCancel 0, .entryFree 0]

/-- `ev_loop` comes to the first timer, which is freed. -/
theorem cancelled_touched :
    ∃ final,
      Run Step State.initial sampleStale final ∧
        touches final = some 0 ∧
        final.deleted 0 = true ∧
        final.memory 0 = none ∧
        ∀ readable, perform final (.dispatch readable) = none := by
  have run : Run Step State.initial sampleStale _ := .of_foldlM id rfl
  exact ⟨_, run, rfl, rfl, rfl, fun _ => rfl⟩

end Sysprog.EventLoop
