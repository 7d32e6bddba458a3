import Sysprog.EvDescriptors

namespace Sysprog.EventLoop

open Execution

/-!
# What `ev_entry_free` closes

As long as every entry that is freed closes its own timer and leaves none open, the field
`fd` of a timer entry is the number of the timer it was armed with last.
-/

/-! ## What a call does to the timers -/

/-- The same entries and timers. -/
structure SameTimers (before after : State) : Prop where
  memory : after.memory = before.memory
  allocated : after.allocated = before.allocated
  behind : SameOpen before after
  origins : after.origins = before.origins
  closings : after.closings = before.closings
  arms : after.arms = before.arms

/-- An entry is made, with the number 0 in its field `fd` if it is a timer. -/
structure Made (before after : State) : Prop where
  entry : ∃ entry : EvEntry,
    after.memory = Function.update before.memory before.allocated (some entry) ∧
      (entry.kind ≠ .raw → entry.fd = 0)
  allocated : after.allocated = before.allocated + 1
  behind : SameOpen before after
  origins : after.origins = before.origins
  closings : after.closings = before.closings
  arms : after.arms = before.arms

/-- What a call does to the entries and their timers. -/
inductive TimerEffect (before after : State) : Call → Prop where
  | same {call : Call} (timers : SameTimers before after) : TimerEffect before after call
  | made {call : Call} (made : Made before after) : TimerEffect before after call
  | failed {call : Call} {id : Nat} {entry : EvEntry} {fd : Int} {created : State}
      (present : before.memory id = some entry)
      (timer : entry.kind ≠ .raw)
      (creation : before.create fd id = some created)
      (timers : SameTimers (created.close fd) after) :
      TimerEffect before after call
  | armed {call : Call} {id : Nat} {entry : EvEntry} {fd : Int} {created : State}
      (present : before.memory id = some entry)
      (timer : entry.kind ≠ .raw)
      (creation : before.create fd id = some created)
      (timers :
        SameTimers
          { created with
            memory := Function.update created.memory id (some { entry with fd := fd })
            arms := Function.update created.arms id (created.arms id + 1) }
          after) :
      TimerEffect before after call
  | freed {id : Nat} {entry : EvEntry}
      (present : before.memory id = some entry)
      (done :
        (entry.kind = .raw ∧
            after = { before with memory := Function.update before.memory id none }) ∨
          (entry.kind ≠ .raw ∧
            after =
              { before.close entry.fd with
                memory := Function.update before.memory id none })) :
      TimerEffect before after (.entryFree id)

/-- Nothing happens to the timers. -/
theorem SameTimers.refl (state : State) : SameTimers state state :=
  ⟨rfl, rfl, fun _ _ => Iff.rfl, rfl, rfl, rfl⟩

/-- What only watches descriptors leaves the timers alone. -/
theorem SameTimers.of_kernel
    (state : State)
    {kernel : Kernel}
    (entries : Nat)
    (deleted : Nat → Bool)
    (behind : kernel.behind = state.kernel.behind) :
    SameTimers state { state with kernel := kernel, entries := entries, deleted := deleted } :=
  ⟨rfl, rfl, fun _ _ => by rw [behind], rfl, rfl, rfl⟩

/-- Registering leaves the timers alone. -/
theorem register_timers
    {before after : State}
    {id : Nat}
    {ret : Int}
    {answers : Answers}
    (called : register before id answers = some (ret, after)) :
    SameTimers before after := by
  rcases register_cases called with rfl | ⟨entry, kernel, _, taken, rfl⟩
  · exact .refl _
  · obtain ⟨_, behind, _⟩ := DescriptorTable.Table.add?_spec taken
    exact .of_kernel before _ _ behind

/-- Deleting leaves the timers alone. -/
theorem evDel_timers
    {before after : State}
    {id : Nat}
    {ret : Int}
    (called : evDel before id = some (ret, after)) :
    SameTimers before after := by
  obtain ⟨entry, _, ⟨_, _, rfl⟩ | ⟨kernel, _, taken, rfl⟩⟩ := evDel_cases called
  · exact .refl _
  · obtain ⟨_, behind, _⟩ := DescriptorTable.Table.delete?_spec taken
    exact .of_kernel before _ _ behind

/-- What `ev_add` does to the timers. -/
theorem evAdd_timers
    {before after : State}
    {call : Call}
    {id : Nat}
    {ret : Int}
    {answers : Answers}
    (called : evAdd before id answers = some (ret, after)) :
    TimerEffect before after call := by
  obtain ⟨entry, result, middle, present, arming, behind⟩ := evAdd_cases called
  have onward : SameTimers middle after := by
    rcases behind with ⟨_, rfl⟩ | ⟨_, registered⟩
    · exact .refl _
    · exact register_timers registered
  rcases armEntry_cases arming with ⟨_, _, rfl⟩ | ⟨timer, ⟨_, rfl⟩ | armed⟩
  · exact .same onward
  · exact .same onward
  · rcases armTimerfd_cases armed with ⟨_, rfl⟩ | ⟨fd, created, creation, closed | succeeded⟩
    · exact .same onward
    · obtain ⟨_, rfl⟩ := closed
      exact .failed present timer creation onward
    · obtain ⟨_, rfl⟩ := succeeded
      exact .armed present timer creation onward

/-- What each call does to the timers. -/
theorem Step.timers {before after : State} {call : Call} (taken : Step before call after) :
    TimerEffect before after call := by
  have made {granted : Bool} {entry : EvEntry}
      (zero : entry.kind ≠ .raw → entry.fd = 0)
      (same : (evEntryNewEpollInternal before granted entry).2 = after) :
      TimerEffect before after call := by
    subst same
    cases granted with
    | false => exact .same (.refl before)
    | true => exact .made ⟨⟨entry, rfl, zero⟩, rfl, fun _ _ => Iff.rfl, rfl, rfl, rfl⟩
  cases call with
  | entryNewRaw granted fd =>
      exact made (fun timer => absurd rfl timer) (Option.some.inj taken)
  | timerOneshotNew granted =>
      exact made (fun _ => rfl) (Option.some.inj taken)
  | timerPeriodicNew granted =>
      exact made (fun _ => rfl) (Option.some.inj taken)
  | add id answers =>
      obtain ⟨⟨ret, result⟩, called, rfl⟩ := Option.map_eq_some_iff.mp taken
      exact evAdd_timers called
  | del id =>
      obtain ⟨⟨ret, result⟩, called, rfl⟩ := Option.map_eq_some_iff.mp taken
      exact .same (evDel_timers called)
  | timerCancel id =>
      obtain ⟨⟨ret, result⟩, called, rfl⟩ := Option.map_eq_some_iff.mp taken
      rw [evTimerCancel_eq] at called
      exact .same (evDel_timers called)
  | entryFree id =>
      obtain ⟨entry, present, done⟩ := evEntryFree_cases taken
      exact .freed present done
  | wait ready =>
      simp only [Step, perform, epollWait] at taken
      split at taken
      · obtain rfl := Option.some.inj taken
        exact .same ⟨rfl, rfl, fun _ _ => Iff.rfl, rfl, rfl, rfl⟩
      · simp at taken
  | dispatch readable =>
      obtain ⟨id, rest, entry, batch, present, ⟨_, rfl⟩ | ⟨oneshot, ret, called⟩⟩ :=
        dispatch_cases taken
      · exact .same ⟨rfl, rfl, fun _ _ => Iff.rfl, rfl, rfl, rfl⟩
      · obtain ⟨memory, allocated, behind, origins, closings, arms⟩ := evDel_timers called
        exact .same ⟨memory, allocated, behind, origins, closings, arms⟩
  | opened fd =>
      obtain ⟨kernel, openedAt, same⟩ := Option.bind_eq_some_iff.mp taken
      obtain ⟨free, behind, _⟩ := DescriptorTable.Table.openAt?_spec openedAt
      obtain rfl := Option.some.inj same
      refine .same ⟨rfl, rfl, ?_, rfl, rfl, rfl⟩
      intro cell serial
      by_cases atFd : cell = fd <;> simp [behind, atFd, free]
  | closed fd =>
      simp only [Step, perform] at taken
      split at taken
      · rename_i possible
        obtain rfl := Option.some.inj taken
        refine .same ⟨rfl, rfl, ?_, rfl, ?_, rfl⟩
        · intro cell serial
          rw [behind_close, and_iff_right_iff_imp]
          rintro there rfl
          simp [possible.1] at there
        · simp [State.close, possible.1]
      · simp at taken

/-! ## Entries and their timers -/

/-- The timers that a timer entry in memory holds, by how often it was armed. -/
structure Armed (state : State) (id : Nat) (entry : EvEntry) : Prop where
  never : state.arms id = 0 → entry.fd = 0 ∧ ∀ fd, ¬ Holds state id fd
  last : 0 < state.arms id → Holds state id entry.fd
  only : state.arms id = 1 → ∀ fd, Holds state id fd → fd = entry.fd
  older : 1 < state.arms id → ∃ fd, fd ≠ entry.fd ∧ Holds state id fd

/-- Timers are created for timer entries only, and every timer entry holds its own. -/
structure Owned (state : State) : Prop where
  tracked : Tracked state
  unmade : ∀ id, state.allocated ≤ id →
    state.arms id = 0 ∧ id ∉ state.origins ∧ state.memory id = none
  raw : ∀ id entry, state.memory id = some entry → entry.kind = .raw → id ∉ state.origins
  timer : ∀ id entry, state.memory id = some entry → entry.kind ≠ .raw → Armed state id entry

/--
Each descriptor that `ev_entry_free` closes was created for the entry, and by then every
descriptor created for the entry has been closed once.
-/
structure FreesOwn (before : State) (id : Nat) (after : State) : Prop where
  own : ∀ fd,
    (before.kernel.behind fd).isSome → after.kernel.behind fd = none → Holds before id fd
  once : ∀ serial, after.origins[serial]? = some id → after.closings serial = 1

/-- `ev_entry_free` does so, if that is the call. -/
def FreeSound (before : State) (call : Call) (after : State) : Prop :=
  ∀ id, call = .entryFree id → FreesOwn before id after

/--
A timer that is freed was armed once, or never while no descriptor has the number 0.
-/
def ArmedOnce (before : State) (call : Call) (_ : State) : Prop :=
  ∀ id entry,
    call = .entryFree id →
    before.memory id = some entry →
    entry.kind ≠ .raw →
    before.arms id = 1 ∨ (before.arms id = 0 ∧ before.kernel.behind 0 = none)

section Ownership

variable {before after : State} {id : Nat} {entry : EvEntry}

/-- An entry that holds a timer is one that a timer was created for. -/
theorem Holds.mem_origins {fd : Int} (held : Holds before id fd) : id ∈ before.origins := by
  obtain ⟨serial, _, origin⟩ := held
  exact List.mem_of_getElem? origin

/-- What an entry holds is said by the open descriptors and the creations. -/
theorem holds_congr
    {fd : Int}
    (behind : SameOpen before after)
    (origins : after.origins = before.origins) :
    Holds after id fd ↔ Holds before id fd := by
  simp only [Holds, behind fd, origins]

/-- A timer entry keeps its timers if it is armed as often and holds the same. -/
theorem Armed.congr
    (armed : Armed before id entry)
    (arms : after.arms id = before.arms id)
    (holds : ∀ fd, Holds after id fd ↔ Holds before id fd) :
    Armed after id entry := by
  obtain ⟨never, last, only, older⟩ := armed
  simp only [← holds, ← arms] at never last only older
  exact ⟨never, last, only, older⟩

/-- The same entries and timers are owned in the same way. -/
theorem Owned.congr (owned : Owned before) (timers : SameTimers before after) : Owned after where
  tracked := owned.tracked.congr timers.behind timers.origins timers.closings
  unmade := by
    rw [timers.allocated, timers.arms, timers.origins, timers.memory]
    exact owned.unmade
  raw := by
    rw [timers.memory, timers.origins]
    exact owned.raw
  timer := by
    intro id entry present timer
    rw [timers.memory] at present
    refine (owned.timer id entry present timer).congr (by rw [timers.arms]) ?_
    intro fd
    exact holds_congr timers.behind timers.origins

/-- A new entry holds nothing. -/
theorem Owned.made (owned : Owned before) (made : Made before after) : Owned after where
  tracked := owned.tracked.congr made.behind made.origins made.closings
  unmade := by
    obtain ⟨entry, memory, _⟩ := made.entry
    intro id above
    rw [made.allocated] at above
    rw [made.arms, made.origins, memory, Function.update_of_ne (by omega)]
    exact owned.unmade id (by omega)
  raw := by
    obtain ⟨entry, memory, _⟩ := made.entry
    intro id former present isRaw
    rw [made.origins]
    by_cases new : id = before.allocated
    · exact (owned.unmade id (by omega)).2.1
    · rw [memory, Function.update_of_ne new] at present
      exact owned.raw id former present isRaw
  timer := by
    obtain ⟨entry, memory, zero⟩ := made.entry
    intro id former present timer
    have holds (fd : Int) : Holds after id fd ↔ Holds before id fd :=
      holds_congr made.behind made.origins
    by_cases new : id = before.allocated
    · obtain ⟨arms, unmade, _⟩ := owned.unmade id (by omega)
      rw [memory, new, Function.update_self] at present
      obtain rfl := Option.some.inj present
      rw [← made.arms] at arms
      refine ⟨fun _ => ⟨zero timer, ?_⟩, by omega, by omega, by omega⟩
      intro fd held
      exact unmade ((holds fd).mp held).mem_origins
    · rw [memory, Function.update_of_ne new] at present
      exact (owned.timer id former present timer).congr (by rw [made.arms]) holds

/-- A timer that is created and closed again is held by nobody. -/
theorem Owned.failed
    {fd : Int}
    {created : State}
    (owned : Owned before)
    (present : before.memory id = some entry)
    (timer : entry.kind ≠ .raw)
    (creation : before.create fd id = some created) :
    Owned (created.close fd) := by
  have spec := create_spec creation
  have memory : (created.close fd).memory = before.memory := spec.memory
  have allocated : (created.close fd).allocated = before.allocated := spec.allocated
  have arms : (created.close fd).arms = before.arms := spec.arms
  have origins : (created.close fd).origins = before.origins ++ [id] := spec.origins
  have holds (other : Nat) (cell : Int) :
      Holds (created.close fd) other cell ↔ Holds before other cell := by
    rw [holds_close, holds_create owned.tracked creation]
    constructor
    · rintro ⟨another, ⟨atFd, _⟩ | held⟩
      · exact absurd atFd another
      · exact held
    · intro held
      refine ⟨?_, Or.inr held⟩
      rintro rfl
      obtain ⟨_, there, _⟩ := held
      simp [spec.free] at there
  constructor
  · exact (owned.tracked.create creation).close
  · intro other above
    rw [allocated] at above
    obtain ⟨never, uncreated, absent⟩ := owned.unmade other above
    rw [arms, memory, origins]
    refine ⟨never, ?_, absent⟩
    have another : other ≠ id := by
      rintro rfl
      simp [present] at absent
    simp [uncreated, another]
  · intro other former there isRaw
    rw [memory] at there
    rw [origins]
    have another : other ≠ id := by
      rintro rfl
      rw [present] at there
      obtain rfl := Option.some.inj there
      exact timer isRaw
    simp [owned.raw other former there isRaw, another]
  · intro other former there isTimer
    rw [memory] at there
    exact (owned.timer other former there isTimer).congr (by rw [arms]) (holds other)

/-- A timer that is created and kept is held by the entry, behind its field `fd`. -/
theorem Owned.armed
    {fd : Int}
    {created : State}
    (owned : Owned before)
    (present : before.memory id = some entry)
    (timer : entry.kind ≠ .raw)
    (creation : before.create fd id = some created) :
    Owned
      { created with
        memory := Function.update created.memory id (some { entry with fd := fd })
        arms := Function.update created.arms id (created.arms id + 1) } := by
  have spec := create_spec creation
  have holds (other : Nat) (cell : Int) :
      Holds created other cell ↔ (cell = fd ∧ other = id) ∨ Holds before other cell :=
    holds_create owned.tracked creation
  constructor
  · exact (owned.tracked.create creation).congr (fun _ _ => Iff.rfl) rfl rfl
  · intro other above
    dsimp only at above ⊢
    rw [spec.allocated] at above
    obtain ⟨never, uncreated, absent⟩ := owned.unmade other above
    have another : other ≠ id := by
      rintro rfl
      simp [present] at absent
    rw [Function.update_of_ne another, Function.update_of_ne another, spec.arms, spec.memory,
      spec.origins]
    exact ⟨never, by simp [uncreated, another], absent⟩
  · intro other former there isRaw
    dsimp only at there ⊢
    by_cases another : other = id
    · rw [another, Function.update_self] at there
      obtain rfl := Option.some.inj there
      exact absurd isRaw timer
    · rw [Function.update_of_ne another, spec.memory] at there
      rw [spec.origins]
      simp [owned.raw other former there isRaw, another]
  · intro other former there isTimer
    dsimp only at there
    by_cases another : other = id
    · subst another
      rw [Function.update_self] at there
      obtain rfl := Option.some.inj there
      obtain ⟨never, last, _, _⟩ := owned.timer other entry present timer
      refine ⟨?_, fun _ => ?_, ?_, ?_⟩
      · simp
      · exact (holds other fd).mpr (Or.inl ⟨rfl, rfl⟩)
      · intro once cell held
        have zero : before.arms other = 0 := by simpa [spec.arms] using once
        rcases (holds other cell).mp held with ⟨atFd, _⟩ | older
        · exact atFd
        · exact absurd older ((never zero).2 cell)
      · intro again
        have positive : 0 < before.arms other := by simpa [spec.arms] using again
        have held := last positive
        refine ⟨entry.fd, ?_, (holds other entry.fd).mpr (Or.inr held)⟩
        rintro same
        obtain ⟨_, there, _⟩ := held
        simp [same, spec.free] at there
    · rw [Function.update_of_ne another, spec.memory] at there
      refine (owned.timer other former there isTimer).congr ?_ ?_
      · simp [another, spec.arms]
      · intro cell
        refine Iff.trans (holds other cell) ?_
        simp [another]

/-- An entry can be taken from memory. -/
theorem Owned.forget (owned : Owned before) :
    Owned { before with memory := Function.update before.memory id none } := by
  have older {other : Nat} {former : EvEntry}
      (there : Function.update before.memory id none other = some former) :
      before.memory other = some former := by
    by_cases same : other = id
    · simp [same] at there
    · rwa [Function.update_of_ne same] at there
  constructor
  · exact owned.tracked.congr (fun _ _ => Iff.rfl) rfl rfl
  · intro other above
    obtain ⟨never, uncreated, absent⟩ := owned.unmade other above
    refine ⟨never, uncreated, ?_⟩
    by_cases same : other = id <;> simp [same, absent]
  · intro other former there isRaw
    exact owned.raw other former (older there) isRaw
  · intro other former there isTimer
    exact (owned.timer other former (older there) isTimer).congr rfl fun _ => Iff.rfl

/-- A number that no entry in memory holds can be closed. -/
theorem Owned.close
    {fd : Int}
    (owned : Owned before)
    (unheld : ∀ other former, before.memory other = some former → ¬ Holds before other fd) :
    Owned (before.close fd) where
  tracked := owned.tracked.close
  unmade := owned.unmade
  raw := owned.raw
  timer := by
    intro other former there isTimer
    refine (owned.timer other former there isTimer).congr rfl ?_
    intro cell
    rw [holds_close, and_iff_right_iff_imp]
    rintro held rfl
    exact unheld other former there held

/-- A descriptor is held by one entry. -/
theorem Holds.unique
    {other : Nat}
    {fd : Int}
    (held : Holds before id fd)
    (again : Holds before other fd) :
    other = id := by
  obtain ⟨serial, behind, origin⟩ := held
  obtain ⟨serial', behind', origin'⟩ := again
  rw [behind] at behind'
  obtain rfl : serial = serial' := by simpa using behind'
  rw [origin] at origin'
  exact (Option.some.inj origin').symm

/-- Closing what the entry holds leaves the other entries what they hold. -/
theorem Owned.freed
    (owned : Owned before)
    (own : (before.kernel.behind entry.fd).isSome → Holds before id entry.fd) :
    Owned { before.close entry.fd with memory := Function.update before.memory id none } := by
  have forgotten : Owned { before with memory := Function.update before.memory id none } :=
    owned.forget
  refine forgotten.close ?_
  intro other former there held
  have heldBefore : Holds before other entry.fd := held
  obtain ⟨serial, behind, _⟩ := heldBefore
  obtain rfl := (own (by simp [behind])).unique held
  simp at there

/-- Entries own their timers as long as freeing an entry closes what it holds. -/
theorem Owned.step
    {call : Call}
    (owned : Owned before)
    (taken : Step before call after)
    (sound : FreeSound before call after) :
    Owned after := by
  cases taken.timers with
  | same timers => exact owned.congr timers
  | made made => exact owned.made made
  | failed present timer creation timers =>
      exact (owned.failed present timer creation).congr timers
  | armed present timer creation timers =>
      exact (owned.armed present timer creation).congr timers
  | @freed id entry present done =>
      rcases done with ⟨_, rfl⟩ | ⟨_, rfl⟩
      · exact owned.forget
      · refine owned.freed fun isOpen => ?_
        exact (sound id rfl).own entry.fd isOpen (by simp [State.close])

/-! ## Freeing -/

/-- A timer that was created and is not open was closed once. -/
theorem Tracked.closed_once
    {serial : Nat}
    (tracked : Tracked before)
    (origin : before.origins[serial]? = some id)
    (gone : ∀ fd, ¬ Holds before id fd) :
    before.closings serial = 1 := by
  have created : serial < before.origins.length := (List.getElem?_eq_some_iff.mp origin).1
  rcases tracked.counted serial created with ⟨⟨fd, there⟩, _⟩ | ⟨_, once⟩
  · exact absurd ⟨serial, there, origin⟩ (gone fd)
  · exact once

/-- A raw entry has no timers, and closes nothing. -/
theorem FreesOwn.of_raw (unmade : id ∉ before.origins) :
    FreesOwn before id { before with memory := Function.update before.memory id none } where
  own := by
    intro fd isOpen closed
    dsimp only at closed
    simp [closed] at isOpen
  once := fun _ origin => absurd (List.mem_of_getElem? origin) unmade

/-- A timer entry closes its own timer and no other is open, exactly if it was armed once. -/
theorem freesOwn_timer_iff
    (tracked : Tracked before)
    (armed : Armed before id entry) :
    FreesOwn before id
        { before.close entry.fd with memory := Function.update before.memory id none } ↔
      before.arms id = 1 ∨ (before.arms id = 0 ∧ before.kernel.behind 0 = none) := by
  have onlyThis {fd : Int} (isOpen : (before.kernel.behind fd).isSome)
      (closed : (before.close entry.fd).kernel.behind fd = none) : fd = entry.fd := by
    by_contra another
    rw [State.close, DescriptorTable.Table.close_behind, Function.update_of_ne another] at closed
    simp [closed] at isOpen
  constructor
  · intro sound
    rcases Nat.lt_trichotomy (before.arms id) 1 with never | once | again
    · have zero : before.arms id = 0 := by omega
      obtain ⟨atZero, nothing⟩ := armed.never zero
      refine Or.inr ⟨zero, ?_⟩
      cases there : before.kernel.behind 0 with
      | none => rfl
      | some what =>
          refine absurd (sound.own 0 (by simp [there]) ?_) (nothing 0)
          simp [State.close, atZero]
    · exact Or.inl once
    · obtain ⟨fd, another, serial, there, origin⟩ := armed.older again
      have once := sound.once serial origin
      have still : (before.close entry.fd).kernel.behind fd = some (.timer serial) :=
        behind_close.mpr ⟨another, there⟩
      have created : serial < before.origins.length := tracked.known fd serial there
      rcases tracked.close.counted serial created with ⟨_, zero⟩ | ⟨gone, _⟩
      · exact absurd (once.symm.trans zero) (by decide)
      · exact absurd ⟨fd, still⟩ gone
  · intro condition
    have nothingLeft (fd : Int) : ¬ Holds (before.close entry.fd) id fd := by
      rw [holds_close]
      rintro ⟨another, held⟩
      rcases condition with once | ⟨zero, _⟩
      · exact another (armed.only once fd held)
      · exact (armed.never zero).2 fd held
    refine ⟨?_, fun serial origin => tracked.close.closed_once origin nothingLeft⟩
    intro fd isOpen closed
    obtain rfl := onlyThis isOpen closed
    rcases condition with once | ⟨zero, free⟩
    · exact armed.last (by omega)
    · rw [(armed.never zero).1, free] at isOpen
      simp at isOpen

/-- Freeing an entry is sound exactly if the entry is a raw one or was armed once. -/
theorem freeSound_iff
    {call : Call}
    (owned : Owned before)
    (taken : Step before call after) :
    FreeSound before call after ↔ ArmedOnce before call after := by
  cases call with
  | entryFree id =>
      obtain ⟨entry, present, ⟨isRaw, rfl⟩ | ⟨timer, rfl⟩⟩ := evEntryFree_cases taken
      · constructor
        · rintro _ _ former ⟨⟩ there isTimer
          rw [present] at there
          obtain rfl := Option.some.inj there
          exact absurd isRaw isTimer
        · rintro _ _ ⟨⟩
          exact .of_raw (owned.raw id entry present isRaw)
      · have exactly := freesOwn_timer_iff owned.tracked (owned.timer id entry present timer)
        constructor
        · rintro sound _ former ⟨⟩ there _
          exact exactly.mp (sound id rfl)
        · rintro condition _ ⟨⟩
          exact exactly.mpr (condition id entry rfl present timer)
  | _ => simp [FreeSound, ArmedOnce]

end Ownership

/-- Nothing is owned at first. -/
theorem Owned.initial : Owned State.initial where
  tracked :=
    ⟨by simp [State.initial, DescriptorTable.Table.empty],
      by simp [State.initial, DescriptorTable.Table.empty],
      by simp [State.initial], by simp [State.initial]⟩
  unmade := by simp [State.initial]
  raw := by simp [State.initial]
  timer := by simp [State.initial]

/--
Every `ev_entry_free` of a run closes descriptors of its entry only and leaves none of them
open, if and only if every timer that the run frees was armed once, or never while no
descriptor has the number 0.
-/
theorem frees_own_iff (calls : List Call) :
    StepsSatisfy Step State.initial calls FreeSound ↔
      StepsSatisfy Step State.initial calls ArmedOnce := by
  constructor
  · intro sound
    exact sound.mono .initial Owned.step fun owned taken => (freeSound_iff owned taken).mp
  · intro condition
    refine condition.mono .initial ?_ fun owned taken => (freeSound_iff owned taken).mpr
    intro before call after owned taken armedOnce
    exact owned.step taken ((freeSound_iff owned taken).mpr armedOnce)

/-- A timer that could not be added is freed, as the caller of `ev_add` is asked to do. -/
def sampleUnarmed : List Call :=
  [.opened 0, .timerOneshotNew true, .add 0 { sampleAnswers 5 with created := none }]

/-- The standard input of the program is closed. -/
theorem freed_timer_closes_stdin :
    ∃ before after,
      Run Step State.initial sampleUnarmed before ∧
        Step before (.entryFree 0) after ∧
        before.kernel.behind 0 = some .outside ∧
        after.kernel.behind 0 = none ∧
        ¬ FreesOwn before 0 after := by
  have run : Run Step State.initial sampleUnarmed _ := .of_foldlM id rfl
  refine ⟨_, _, run, rfl, rfl, rfl, ?_⟩
  intro sound
  obtain ⟨serial, timer, _⟩ := sound.own 0 rfl rfl
  exact absurd timer nofun

end Sysprog.EventLoop
