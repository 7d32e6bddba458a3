import Sysprog.EvWatch

namespace Sysprog.EventLoop

open Execution

/-!
# The timers of the entries

`ev_entry_free` takes the field `fd` of a timer entry for a descriptor that is its own.  That
is so if the entry was armed once.  The field of an entry that was never armed is 0, and one
that was armed again has lost the number of an older timer.
-/

/-! ## Timers that are open -/

/-- A descriptor is a timer that was created for the entry. -/
def Holds (state : State) (id : Nat) (fd : Int) : Prop :=
  ∃ serial, state.kernel.behind fd = some (.timer serial) ∧ state.origins[serial]? = some id

/-- A timer is open. -/
def Open (state : State) (serial : Nat) : Prop :=
  ∃ fd, state.kernel.behind fd = some (.timer serial)

/-- Every timer has one number while it is open, and was closed once if it is not. -/
structure Tracked (state : State) : Prop where
  known : ∀ fd serial,
    state.kernel.behind fd = some (.timer serial) → serial < state.origins.length
  single : ∀ fd other serial,
    state.kernel.behind fd = some (.timer serial) →
    state.kernel.behind other = some (.timer serial) →
    fd = other
  counted : ∀ serial < state.origins.length,
    (Open state serial ∧ state.closings serial = 0) ∨
      (¬ Open state serial ∧ state.closings serial = 1)
  uncreated : ∀ serial, state.origins.length ≤ serial → state.closings serial = 0

/-- The same timers behind the same numbers. -/
def SameOpen (before after : State) : Prop :=
  ∀ fd serial,
    after.kernel.behind fd = some (.timer serial) ↔ before.kernel.behind fd = some (.timer serial)

section Timers

variable {before after : State} {id holder serial : Nat} {fd cell : Int}

/-- A state in which the same timers are open. -/
theorem Tracked.congr
    (tracked : Tracked before)
    (behind : SameOpen before after)
    (origins : after.origins = before.origins)
    (closings : after.closings = before.closings) :
    Tracked after := by
  obtain ⟨known, single, counted, uncreated⟩ := tracked
  simp only [SameOpen] at behind
  simp only [Open, ← behind] at known single counted
  rw [← origins] at known counted uncreated
  rw [← closings] at counted uncreated
  exact ⟨known, single, counted, uncreated⟩

/-- What is behind a number after a timer was created. -/
theorem behind_create
    (created : before.create fd id = some after)
    (there : after.kernel.behind cell = some (.timer serial)) :
    (cell = fd ∧ serial = before.origins.length) ∨
      before.kernel.behind cell = some (.timer serial) := by
  rw [(create_spec created).behind] at there
  by_cases atFd : cell = fd
  · rw [atFd, Function.update_self] at there
    exact Or.inl ⟨atFd, by simpa using there.symm⟩
  · rw [Function.update_of_ne atFd] at there
    exact Or.inr there

/-- Timers that are open stay open when one is created. -/
theorem behind_of_create
    (created : before.create fd id = some after)
    (there : before.kernel.behind cell = some (.timer serial)) :
    after.kernel.behind cell = some (.timer serial) := by
  have spec := create_spec created
  have another : cell ≠ fd := by
    rintro rfl
    simp [spec.free] at there
  rw [spec.behind, Function.update_of_ne another, there]

/-- What is behind a number after one was closed. -/
theorem behind_close :
    (before.close fd).kernel.behind cell = some (.timer serial) ↔
      cell ≠ fd ∧ before.kernel.behind cell = some (.timer serial) := by
  change Function.update before.kernel.behind fd none cell = _ ↔ _
  by_cases atFd : cell = fd <;> simp [atFd]

/-- A timer that is created is held by its entry, and nothing else changes. -/
theorem holds_create
    (tracked : Tracked before)
    (created : before.create fd id = some after) :
    Holds after holder cell ↔ (cell = fd ∧ holder = id) ∨ Holds before holder cell := by
  have spec := create_spec created
  simp only [Holds, spec.behind, spec.origins]
  by_cases atFd : cell = fd
  · subst atFd
    simp [spec.free, eq_comm]
  · simp only [Function.update_of_ne atFd, atFd, false_and, false_or]
    refine exists_congr fun serial => and_congr_right fun there => ?_
    rw [List.getElem?_append_left (tracked.known cell serial there)]

/-- What is closed is held no longer. -/
theorem holds_close :
    Holds (before.close fd) holder cell ↔ cell ≠ fd ∧ Holds before holder cell := by
  simp only [Holds, behind_close, and_assoc]
  exact exists_and_left

/-- A timer that is created is tracked. -/
theorem Tracked.create
    (tracked : Tracked before)
    (created : before.create fd id = some after) :
    Tracked after := by
  have spec := create_spec created
  have length : after.origins.length = before.origins.length + 1 := by simp [spec.origins]
  constructor
  · intro cell serial there
    rcases behind_create created there with ⟨_, rfl⟩ | older
    · omega
    · have := tracked.known cell serial older
      omega
  · intro cell other serial there again
    rcases behind_create created there with ⟨rfl, rfl⟩ | older
    · rcases behind_create created again with ⟨rfl, _⟩ | older
      · rfl
      · exact absurd (tracked.known other _ older) (by omega)
    · rcases behind_create created again with ⟨_, rfl⟩ | older'
      · exact absurd (tracked.known cell _ older) (by omega)
      · exact tracked.single cell other serial older older'
  · intro serial below
    rw [spec.closings]
    by_cases new : serial = before.origins.length
    · refine Or.inl ⟨⟨fd, ?_⟩, tracked.uncreated serial (by omega)⟩
      rw [spec.behind, Function.update_self, new]
    · rcases tracked.counted serial (by omega) with ⟨⟨cell, there⟩, zero⟩ | ⟨gone, once⟩
      · exact Or.inl ⟨⟨cell, behind_of_create created there⟩, zero⟩
      · refine Or.inr ⟨?_, once⟩
        rintro ⟨cell, there⟩
        rcases behind_create created there with ⟨_, rfl⟩ | older
        · exact new rfl
        · exact gone ⟨cell, older⟩
  · intro serial above
    rw [spec.closings]
    exact tracked.uncreated serial (by omega)

/-- Closing a number counts the timer behind it. -/
theorem closings_close :
    (before.close fd).closings serial =
      if before.kernel.behind fd = some (.timer serial) then
        before.closings serial + 1
      else
        before.closings serial := by
  cases there : before.kernel.behind fd with
  | none =>
      simp [State.close, there]
  | some what =>
      cases what with
      | outside =>
          simp [State.close, there]
      | timer closed =>
          by_cases same : serial = closed
          · simp [State.close, there, same]
          · simp [State.close, there, same, Ne.symm same]

/-- A timer that is closed is tracked. -/
theorem Tracked.close (tracked : Tracked before) : Tracked (before.close fd) := by
  have origins : (before.close fd).origins = before.origins := rfl
  constructor
  · intro cell serial there
    exact tracked.known cell serial (behind_close.mp there).2
  · intro cell other serial there again
    exact tracked.single cell other serial (behind_close.mp there).2 (behind_close.mp again).2
  · intro serial below
    rw [closings_close]
    rw [origins] at below
    by_cases closed : before.kernel.behind fd = some (.timer serial)
    · rw [if_pos closed]
      rcases tracked.counted serial below with ⟨_, zero⟩ | ⟨gone, _⟩
      · refine Or.inr ⟨?_, by omega⟩
        rintro ⟨cell, there⟩
        obtain ⟨another, older⟩ := behind_close.mp there
        exact another (tracked.single cell fd serial older closed)
      · exact absurd ⟨fd, closed⟩ gone
    · rw [if_neg closed]
      rcases tracked.counted serial below with ⟨⟨cell, there⟩, zero⟩ | ⟨gone, once⟩
      · refine Or.inl ⟨⟨cell, behind_close.mpr ⟨?_, there⟩⟩, zero⟩
        rintro rfl
        exact closed there
      · refine Or.inr ⟨?_, once⟩
        rintro ⟨cell, there⟩
        exact gone ⟨cell, (behind_close.mp there).2⟩
  · intro serial above
    rw [origins] at above
    rw [closings_close, if_neg]
    · exact tracked.uncreated serial above
    · intro closed
      exact absurd (tracked.known fd serial closed) (by omega)

end Timers

end Sysprog.EventLoop
