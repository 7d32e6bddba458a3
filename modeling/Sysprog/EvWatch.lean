import Sysprog.EvModel

namespace Sysprog.EventLoop

open Execution

/-!
# What the calls do to the epoll instance

A call adds a descriptor to the interest list, takes one off, closes one, or leaves the list,
the counter and the record of deletions as they are.  This is said once, function by function
and then for all calls.
-/

/-- Nothing is added or deleted. -/
structure SameWatch (before after : State) : Prop where
  interest : after.kernel.interest = before.kernel.interest
  entries : after.entries = before.entries
  deleted : after.deleted = before.deleted

/-- An entry is added: its descriptor is watched for it, and counted. -/
structure Added (before : State) (id : Nat) (after : State) : Prop where
  interest : ∃ fd, after.kernel.interest = before.kernel.interest ++ [(fd, id)]
  entries : after.entries = MachineWord.add before.entries 1
  deleted : after.deleted = Function.update before.deleted id false

/-- An entry is deleted: its descriptor is watched no longer, and counted off. -/
structure Deleted (before : State) (id : Nat) (entry : EvEntry) (after : State) : Prop where
  present : before.memory id = some entry
  registered : before.kernel.Registered entry.fd
  interest : after.kernel.interest = before.kernel.interest.filter (·.1 ≠ entry.fd)
  entries : after.entries = MachineWord.sub before.entries 1
  deleted : after.deleted = Function.update before.deleted id true

/-- A descriptor is closed without being counted. -/
structure Closed (before : State) (fd : Int) (after : State) : Prop where
  interest : after.kernel.interest = before.kernel.interest.filter (·.1 ≠ fd)
  entries : after.entries = before.entries
  deleted : after.deleted = before.deleted

/-- A timer is created under a number that was free. -/
structure Created (before : State) (fd : Int) (id : Nat) (after : State) : Prop where
  free : before.kernel.behind fd = none
  behind :
    after.kernel.behind =
      Function.update before.kernel.behind fd (some (.timer before.origins.length))
  watch : SameWatch before after
  events : after.events = before.events
  memory : after.memory = before.memory
  allocated : after.allocated = before.allocated
  origins : after.origins = before.origins ++ [id]
  closings : after.closings = before.closings
  arms : after.arms = before.arms

section Effects

variable {before after : State} {id : Nat} {ret : Int} {answers : Answers}

/-- Closing a descriptor that is not watched. -/
theorem close_same {fd : Int} (unwatched : ¬ before.kernel.Registered fd) :
    SameWatch before (before.close fd) :=
  ⟨DescriptorTable.Table.filter_of_not_registered unwatched, rfl, rfl⟩

/-- Creating a timer takes a free number, and watches nothing. -/
theorem create_spec {fd : Int} (created : before.create fd id = some after) :
    Created before fd id after := by
  simp only [State.create, Option.bind_eq_bind, Option.bind_eq_some_iff] at created
  obtain ⟨kernel, opened, same⟩ := created
  obtain ⟨free, behind, interest⟩ := DescriptorTable.Table.openAt?_spec opened
  obtain rfl := Option.some.inj same
  exact
    { free := free
      behind := behind
      watch := ⟨interest, rfl, rfl⟩
      events := rfl
      memory := rfl
      allocated := rfl
      origins := rfl
      closings := rfl
      arms := rfl }

/--
Arming a timer fails, or fails behind a timer that it closes again, or gives the entry a
new descriptor.
-/
theorem armTimerfd_cases
    {entry : EvEntry}
    (called : armTimerfd before id entry answers = some (ret, after)) :
    (ret = negEinval ∧ after = before) ∨
      ∃ fd created,
        before.create fd id = some created ∧
          ((ret = negEinval ∧ after = created.close fd) ∨
            (ret = 0 ∧
              after =
                { created with
                  memory := Function.update created.memory id (some { entry with fd := fd })
                  arms := Function.update created.arms id (created.arms id + 1) })) := by
  simp only [armTimerfd] at called
  split at called
  · obtain ⟨rfl, rfl⟩ := Prod.mk.inj (Option.some.inj called)
    exact Or.inl ⟨rfl, rfl⟩
  · rename_i fd _
    obtain ⟨created, creation, called⟩ := Option.bind_eq_some_iff.mp called
    refine Or.inr ⟨fd, created, creation, ?_⟩
    split at called
    · obtain ⟨rfl, rfl⟩ := Prod.mk.inj (Option.some.inj called)
      exact Or.inl ⟨rfl, rfl⟩
    · split at called
      · obtain ⟨rfl, rfl⟩ := Prod.mk.inj (Option.some.inj called)
        exact Or.inl ⟨rfl, rfl⟩
      · obtain ⟨rfl, rfl⟩ := Prod.mk.inj (Option.some.inj called)
        exact Or.inr ⟨rfl, rfl⟩

/-- A raw entry is not armed, and a one-shot timer only if the clock can be read. -/
theorem armEntry_cases
    {entry : EvEntry}
    (called : armEntry before id entry answers = some (ret, after)) :
    (entry.kind = .raw ∧ ret = 0 ∧ after = before) ∨
      (entry.kind ≠ .raw ∧
        ((ret = negEinval ∧ after = before) ∨
          armTimerfd before id entry answers = some (ret, after))) := by
  simp only [armEntry] at called
  cases kind : entry.kind with
  | raw =>
      rw [kind] at called
      obtain ⟨rfl, rfl⟩ := Prod.mk.inj (Option.some.inj called)
      exact Or.inl ⟨rfl, rfl, rfl⟩
  | timeoutOneshot =>
      rw [kind] at called
      simp only [evArmTimerfdOneshot] at called
      split at called
      · obtain ⟨rfl, rfl⟩ := Prod.mk.inj (Option.some.inj called)
        exact Or.inr ⟨nofun, Or.inl ⟨rfl, rfl⟩⟩
      · exact Or.inr ⟨nofun, Or.inr called⟩
  | timeoutPeriodic =>
      rw [kind] at called
      exact Or.inr ⟨nofun, Or.inr called⟩

/-- `ev_add` fails when it arms the entry, or registers it. -/
theorem evAdd_cases (called : evAdd before id answers = some (ret, after)) :
    ∃ entry result armed,
      before.memory id = some entry ∧
        armEntry before id entry answers = some (result, armed) ∧
        ((result ≠ 0 ∧ after = armed) ∨
          (result = 0 ∧ register armed id answers = some (ret, after))) := by
  simp only [evAdd, Option.bind_eq_bind, Option.bind_eq_some_iff] at called
  obtain ⟨entry, present, ⟨result, armed⟩, arming, called⟩ := called
  refine ⟨entry, result, armed, present, arming, ?_⟩
  dsimp only at called
  split at called
  · rename_i failed
    exact Or.inl ⟨failed, (Prod.mk.inj (Option.some.inj called)).2.symm⟩
  · rename_i succeeded
    exact Or.inr ⟨not_not.mp succeeded, called⟩

/-- Registering fails, or adds the entry. -/
theorem register_cases (called : register before id answers = some (ret, after)) :
    after = before ∨
      ∃ entry kernel,
        before.memory id = some entry ∧
          before.kernel.add? entry.fd id = some kernel ∧
          after =
            { before with
              kernel := kernel
              entries := MachineWord.add before.entries 1
              deleted := Function.update before.deleted id false } := by
  simp only [register, Option.bind_eq_bind, Option.bind_eq_some_iff] at called
  obtain ⟨entry, present, called⟩ := called
  split at called
  · exact Or.inl (Prod.mk.inj (Option.some.inj called)).2.symm
  · split at called
    · exact Or.inl (Prod.mk.inj (Option.some.inj called)).2.symm
    · rename_i kernel added
      exact Or.inr ⟨entry, kernel, present, added, (Prod.mk.inj (Option.some.inj called)).2.symm⟩

/-- `ev_del` fails, or deletes the entry. -/
theorem evDel_cases (called : evDel before id = some (ret, after)) :
    ∃ entry,
      before.memory id = some entry ∧
        ((ret = negEinval ∧ ¬ before.kernel.Registered entry.fd ∧ after = before) ∨
          ∃ kernel,
            ret = 0 ∧
              before.kernel.delete? entry.fd = some kernel ∧
              after =
                { before with
                  kernel := kernel
                  entries := MachineWord.sub before.entries 1
                  deleted := Function.update before.deleted id true }) := by
  simp only [evDel, Option.bind_eq_bind, Option.bind_eq_some_iff] at called
  obtain ⟨entry, present, called⟩ := called
  refine ⟨entry, present, ?_⟩
  split at called
  · rename_i failed
    obtain ⟨rfl, rfl⟩ := Prod.mk.inj (Option.some.inj called)
    refine Or.inl ⟨rfl, ?_, rfl⟩
    rw [← DescriptorTable.Table.delete?_isSome, failed]
    simp
  · rename_i kernel deleted
    obtain ⟨rfl, rfl⟩ := Prod.mk.inj (Option.some.inj called)
    exact Or.inr ⟨kernel, rfl, deleted, rfl⟩

/-- `ev_timer_cancel` is `ev_del`. -/
theorem evTimerCancel_eq (state : State) (id : Nat) : evTimerCancel state id = evDel state id := by
  cases called : evDel state id with
  | none =>
      simp [evTimerCancel, called]
  | some result =>
      obtain ⟨ret, after⟩ := result
      obtain ⟨_, _, ⟨rfl, _, _⟩ | ⟨_, rfl, _, _⟩⟩ := evDel_cases called
      · simp [evTimerCancel, called, negEinval]
      · simp [evTimerCancel, called]

/-- Freeing an entry closes its descriptor if it is a timer. -/
theorem evEntryFree_cases (called : evEntryFree before id = some after) :
    ∃ entry,
      before.memory id = some entry ∧
        ((entry.kind = .raw ∧
            after = { before with memory := Function.update before.memory id none }) ∨
          (entry.kind ≠ .raw ∧
            after =
              { before.close entry.fd with
                memory := Function.update before.memory id none })) := by
  simp only [evEntryFree, Option.bind_eq_bind, Option.bind_eq_some_iff] at called
  obtain ⟨entry, present, called⟩ := called
  refine ⟨entry, present, ?_⟩
  cases kind : entry.kind with
  | raw =>
      rw [kind] at called
      exact Or.inl ⟨rfl, (Option.some.inj called).symm⟩
  | timeoutOneshot =>
      rw [kind] at called
      exact Or.inr ⟨nofun, (Option.some.inj called).symm⟩
  | timeoutPeriodic =>
      rw [kind] at called
      exact Or.inr ⟨nofun, (Option.some.inj called).symm⟩

/-- The next entry of the batch is looked at, and deleted if it is a one-shot timer. -/
theorem dispatch_cases
    {readable : Bool}
    (called : dispatch before readable = some after) :
    ∃ id rest entry,
      before.events = id :: rest ∧
        before.memory id = some entry ∧
        ((entry.kind ≠ .timeoutOneshot ∧ after = { before with events := rest }) ∨
          (entry.kind = .timeoutOneshot ∧
            ∃ ret, evDel { before with events := rest } id = some (ret, after))) := by
  cases batch : before.events with
  | nil =>
      simp [dispatch, batch] at called
  | cons id rest =>
      simp only [dispatch, batch, evProcessCallInternal, Option.bind_eq_bind,
        Option.bind_eq_some_iff] at called
      obtain ⟨entry, present, called⟩ := called
      refine ⟨id, rest, entry, rfl, present, ?_⟩
      cases kind : entry.kind with
      | raw =>
          rw [kind] at called
          exact Or.inl ⟨nofun, (Option.some.inj called).symm⟩
      | timeoutOneshot =>
          rw [kind] at called
          simp only [evProcessTimerOneshot] at called
          split at called
          · obtain ⟨⟨ret, state⟩, deleted, same⟩ := Option.bind_eq_some_iff.mp called
            obtain rfl := Option.some.inj same
            exact Or.inr ⟨rfl, ret, deleted⟩
          · simp at called
      | timeoutPeriodic =>
          rw [kind] at called
          simp only [evProcessTimerPeriodic] at called
          split at called
          · exact Or.inl ⟨nofun, (Option.some.inj called).symm⟩
          · simp at called

end Effects

/-! ## Added, deleted, closed -/

/-- Nothing is added or deleted, twice. -/
theorem SameWatch.trans
    {before middle after : State}
    (first : SameWatch before middle)
    (second : SameWatch middle after) :
    SameWatch before after :=
  ⟨second.interest.trans first.interest, second.entries.trans first.entries,
    second.deleted.trans first.deleted⟩

/-- A timer that is closed again was never watched. -/
theorem create_close_same
    {before created : State}
    {fd : Int}
    {id : Nat}
    (creation : before.create fd id = some created) :
    SameWatch before (created.close fd) := by
  have spec := create_spec creation
  have unwatched : ¬ created.kernel.Registered fd := by
    rw [DescriptorTable.Table.Registered, spec.watch.interest]
    intro registered
    have isOpen := DescriptorTable.Table.Registered.isSome registered
    simp [spec.free] at isOpen
  exact spec.watch.trans (close_same unwatched)

/-- Arming watches nothing. -/
theorem armEntry_same
    {before after : State}
    {id : Nat}
    {ret : Int}
    {entry : EvEntry}
    {answers : Answers}
    (called : armEntry before id entry answers = some (ret, after)) :
    SameWatch before after ∧ after.events = before.events := by
  rcases armEntry_cases called with ⟨_, _, rfl⟩ | ⟨_, ⟨_, rfl⟩ | armed⟩
  · exact ⟨⟨rfl, rfl, rfl⟩, rfl⟩
  · exact ⟨⟨rfl, rfl, rfl⟩, rfl⟩
  · rcases armTimerfd_cases armed with ⟨_, rfl⟩ | ⟨fd, created, creation, closed | succeeded⟩
    · exact ⟨⟨rfl, rfl, rfl⟩, rfl⟩
    · obtain ⟨_, rfl⟩ := closed
      exact ⟨create_close_same creation, (create_spec creation).events⟩
    · obtain ⟨_, rfl⟩ := succeeded
      obtain ⟨interest, entries, deleted⟩ := (create_spec creation).watch
      exact ⟨⟨interest, entries, deleted⟩, (create_spec creation).events⟩

/-- The entry that a call deletes if `ev_del` returns 0. -/
def deletes (before : State) : Call → Option Nat
  | .del id => some id
  | .timerCancel id => some id
  | .dispatch _ =>
      before.events.head?.filter fun id =>
        (before.memory id).map EvEntry.kind = some .timeoutOneshot
  | _ => none

/-- The rest of the batch when a call does its work. -/
def remaining (before : State) : Call → List Nat
  | .dispatch _ => before.events.tail
  | _ => before.events

/-- What a call does to the interest list, the counter, the batch and the record of deletions. -/
inductive Effect (before after : State) : Call → Prop where
  | same {call : Call}
      (watch : SameWatch before after)
      (events : after.events = remaining before call) :
      Effect before after call
  | added {id : Nat} {answers : Answers}
      (added : Added before id after)
      (events : after.events = before.events) :
      Effect before after (.add id answers)
  | deleted {call : Call} {id : Nat} {entry : EvEntry}
      (which : deletes before call = some id)
      (deleted : Deleted before id entry after)
      (events : after.events = remaining before call) :
      Effect before after call
  | freed {id : Nat} {entry : EvEntry}
      (present : before.memory id = some entry)
      (timer : entry.kind ≠ .raw)
      (closed : Closed before entry.fd after)
      (events : after.events = before.events) :
      Effect before after (.entryFree id)
  | waited {ready : List (Int × Nat)}
      (listed : ∀ event ∈ ready, event ∈ before.kernel.interest)
      (watch : SameWatch before after)
      (events : after.events = ready.map Prod.snd) :
      Effect before after (.wait ready)

/-- What `ev_add` does. -/
theorem evAdd_effect
    {before after : State}
    {id : Nat}
    {ret : Int}
    {answers : Answers}
    (called : evAdd before id answers = some (ret, after)) :
    Effect before after (.add id answers) := by
  obtain ⟨entry, result, armed, _, arming, behind⟩ := evAdd_cases called
  obtain ⟨watch, events⟩ := armEntry_same arming
  rcases behind with ⟨_, rfl⟩ | ⟨_, registered⟩
  · exact .same watch events
  · rcases register_cases registered with rfl | ⟨entry', kernel, _, taken, rfl⟩
    · exact .same watch events
    · obtain ⟨_, _, interest⟩ := DescriptorTable.Table.add?_spec taken
      refine .added ⟨⟨entry'.fd, ?_⟩, ?_, ?_⟩ events
      · rw [interest, watch.interest]
      · rw [watch.entries]
      · rw [watch.deleted]

/-- What a call that deletes an entry does. -/
theorem evDel_effect
    {before after : State}
    {call : Call}
    {id : Nat}
    {ret : Int}
    (which : deletes before call = some id)
    (called : evDel { before with events := remaining before call } id = some (ret, after)) :
    Effect before after call := by
  obtain ⟨entry, present, ⟨_, _, rfl⟩ | ⟨kernel, _, taken, rfl⟩⟩ := evDel_cases called
  · exact .same ⟨rfl, rfl, rfl⟩ rfl
  · obtain ⟨registered, _, interest⟩ := DescriptorTable.Table.delete?_spec taken
    exact .deleted which ⟨present, registered, interest, rfl, rfl⟩ rfl

/-- What each call does. -/
theorem Step.effect {before after : State} {call : Call} (taken : Step before call after) :
    Effect before after call := by
  have made {granted : Bool} {entry : EvEntry} {result : State}
      (same : (evEntryNewEpollInternal before granted entry).2 = result) :
      SameWatch before result ∧ result.events = before.events := by
    rw [← same]
    cases granted <;> exact ⟨⟨rfl, rfl, rfl⟩, rfl⟩
  cases call with
  | entryNewRaw granted fd =>
      obtain ⟨watch, events⟩ := made (Option.some.inj taken)
      exact .same watch events
  | timerOneshotNew granted =>
      obtain ⟨watch, events⟩ := made (Option.some.inj taken)
      exact .same watch events
  | timerPeriodicNew granted =>
      obtain ⟨watch, events⟩ := made (Option.some.inj taken)
      exact .same watch events
  | add id answers =>
      obtain ⟨⟨ret, result⟩, called, rfl⟩ := Option.map_eq_some_iff.mp taken
      exact evAdd_effect called
  | del id =>
      obtain ⟨⟨ret, result⟩, called, rfl⟩ := Option.map_eq_some_iff.mp taken
      exact evDel_effect rfl called
  | timerCancel id =>
      obtain ⟨⟨ret, result⟩, called, rfl⟩ := Option.map_eq_some_iff.mp taken
      rw [evTimerCancel_eq] at called
      exact evDel_effect rfl called
  | entryFree id =>
      obtain ⟨entry, present, ⟨_, rfl⟩ | ⟨timer, rfl⟩⟩ := evEntryFree_cases taken
      · exact .same ⟨rfl, rfl, rfl⟩ rfl
      · exact .freed present timer ⟨rfl, rfl, rfl⟩ rfl
  | wait ready =>
      simp only [Step, perform, epollWait] at taken
      split at taken
      · rename_i possible
        obtain rfl := Option.some.inj taken
        exact .waited possible.2.2.2.2 ⟨rfl, rfl, rfl⟩ rfl
      · simp at taken
  | dispatch readable =>
      obtain ⟨id, rest, entry, batch, present, ⟨_, rfl⟩ | ⟨oneshot, ret, called⟩⟩ :=
        dispatch_cases taken
      · refine .same ⟨rfl, rfl, rfl⟩ ?_
        simp [remaining, batch]
      · refine @evDel_effect _ _ _ id ret ?_ ?_
        · simp [deletes, batch, present, oneshot]
        · simpa [remaining, batch] using called
  | opened fd =>
      obtain ⟨kernel, openedAt, same⟩ := Option.bind_eq_some_iff.mp taken
      obtain ⟨_, _, interest⟩ := DescriptorTable.Table.openAt?_spec openedAt
      obtain rfl := Option.some.inj same
      exact .same ⟨interest, rfl, rfl⟩ rfl
  | closed fd =>
      simp only [Step, perform] at taken
      split at taken
      · rename_i possible
        obtain rfl := Option.some.inj taken
        exact .same (close_same possible.2) rfl
      · simp at taken

end Sysprog.EventLoop
