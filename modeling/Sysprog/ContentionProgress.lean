import Mathlib.Data.Finset.Card
import Mathlib.Data.Nat.SuccPred
import Sysprog.ContentionModel
import Sysprog.MutualExclusion

namespace Sysprog.Contention

open Execution MutualExclusion

/-!
# The ring of mutexes never locks up

No thread leaves the line-up before all of them hold their first mutex, and from then on
there is one mutex more than there are threads, so somebody always finds the next one
free.
-/

variable {threads : Nat} {reps : Int} {state after : State threads} {thread : Fin threads}

/-! ## Phases -/

/-- The thread has counted itself ready. -/
def Position.counted : Position threads → Bool
  | .absent | .lockFirst | .lockReady | .count => false
  | _ => true

/-- The thread has left the line-up. -/
def Position.started : Position threads → Bool
  | .unlockStart | .loop _ _ | .lockNext _ _ | .unlockBehind _ _ | .unlockLast _ | .returned =>
      true
  | _ => false

/-- `contention` has seen everybody ready and begun to unlock the start mutexes. -/
def Main.released : Main threads → Bool
  | .unlockStart _ | .join _ | .destroyStart _ | .destroyMutex _ | .destroyReady | .returned =>
      true
  | _ => false

/-- `contention` has left its `while` loop. -/
def Main.ready : Main threads → Bool
  | .unlockReady => true
  | main => main.released

/-- `contention` has created the thread. -/
def Main.created (thread : Fin threads) : Main threads → Prop
  | .initMutex _ | .initReady => False
  | .initStart first => thread.val < first
  | .lockStart first | .create first => thread < first
  | _ => True

/-- `contention` has joined the thread. -/
def Main.joined (thread : Fin threads) : Main threads → Prop
  | .join first => thread.val < first
  | .destroyStart last => thread ≤ last
  | .destroyMutex _ | .destroyReady | .returned => True
  | _ => False

/-- The mutex is initialised and not destroyed yet. -/
def Main.inUse : Main threads → Name threads → Prop
  | .initMutex first, .mutexes index => index.val < first
  | .destroyMutex first, .mutexes index => first ≤ index.val
  | .destroyReady, .mutexes _ | .returned, .mutexes _ => False
  | _, .mutexes _ => True
  | .initMutex _, .readyMutex | .initReady, .readyMutex | .returned, .readyMutex => False
  | _, .readyMutex => True
  | .initMutex _, .startMutex _ | .initReady, .startMutex _ => False
  | .initStart first, .startMutex thread => thread.val < first
  | .lockStart last, .startMutex thread | .create last, .startMutex thread => thread ≤ last
  | .join first, .startMutex thread => first ≤ thread.val
  | .destroyStart first, .startMutex thread => first ≤ thread
  | .destroyMutex _, .startMutex _ | .destroyReady, .startMutex _ | .returned, .startMutex _ =>
      False
  | _, .startMutex _ => True

/-! ## The invariant -/

/-- A mutex is locked. -/
def Taken (state : State threads) (name : Name threads) : Prop :=
  state.mutexes name = .locked

/-- The threads that have counted themselves ready. -/
def countedThreads (state : State threads) : Finset (Fin threads) :=
  Finset.univ.filter fun thread => (state.positions thread).counted = true

theorem mem_countedThreads :
    thread ∈ countedThreads state ↔ (state.positions thread).counted = true := by
  simp [countedThreads]

/-- What holds in every reachable state. -/
structure Orderly (state : State threads) : Prop where
  exclusive : Exclusive (Taken state) (Holds state)
  inUse :
    ∀ name,
      state.main.inUse name ↔
        state.mutexes name = .unlocked ∨ state.mutexes name = .locked
  created : ∀ thread, state.positions thread = .absent ↔ ¬ state.main.created thread
  counted : state.readyCount = (countedThreads state).card
  waiting :
    state.main = .waiting →
    state.readyCount < threads ∨ ∃ thread, state.positions thread = .signal
  ready : state.main.ready = true → state.readyCount = threads
  started : ∀ thread, (state.positions thread).started = true → state.main.released = true
  joined : ∀ thread, state.main.joined thread → state.positions thread = .returned

@[simp] theorem positions_moveMain (main : Main threads) :
    (state.moveMain main).positions = state.positions :=
  rfl

@[simp] theorem main_moveMain (main : Main threads) : (state.moveMain main).main = main :=
  rfl

theorem next_eq (i : Fin (threads + 1)) : next i = i + 1 := by
  apply Fin.ext
  simp [next, Fin.val_add]

/-! ## Mutexes -/

section Mutexes

variable {name : Name threads} {former latter : Mutex}

/-- What changing a mutex does when it succeeds. -/
theorem change_some
    (changed : state.change name former latter = some after) :
    state.mutexes name = former ∧
      after = { state with mutexes := Function.update state.mutexes name latter } := by
  rw [State.change] at changed
  split at changed
  · exact ⟨‹_›, (Option.some.inj changed).symm⟩
  · simp at changed

/-- A locked mutex is taken, and no other becomes so. -/
theorem taken_locked (other : Name threads) :
    Taken { state with mutexes := Function.update state.mutexes name .locked } other ↔
      other = name ∨ Taken state other := by
  by_cases same : other = name
  · simp [Taken, same]
  · simp [Taken, same]

/-- A mutex in any other state is not taken, and no other changes. -/
theorem taken_unlocked
    (open' : latter ≠ .locked)
    (other : Name threads) :
    Taken { state with mutexes := Function.update state.mutexes name latter } other ↔
      other ≠ name ∧ Taken state other := by
  by_cases same : other = name
  · simp [Taken, same, open']
  · simp [Taken, same]

/-- Locking and unlocking keep a mutex in use. -/
theorem Orderly.inUse_update
    (orderly : Orderly state)
    (before : state.mutexes name = .unlocked ∨ state.mutexes name = .locked)
    (behind : latter = .unlocked ∨ latter = .locked)
    (other : Name threads) :
    state.main.inUse other ↔
      Function.update state.mutexes name latter other = .unlocked ∨
        Function.update state.mutexes name latter other = .locked := by
  by_cases same : other = name
  · subst same
    rw [Function.update_self, orderly.inUse]
    exact iff_of_true before behind
  · rw [Function.update_of_ne same]
    exact orderly.inUse other

end Mutexes

/-! ## Steps of a thread -/

section Threads

variable {position : Position threads} {mutexes : Name threads → Mutex} {name : Name threads}

/-- A thread in the line-up or in its loop goes on without counting itself. -/
structure Onward
    (state : State threads)
    (thread : Fin threads)
    (position : Position threads) : Prop where
  present : state.positions thread ≠ .absent ∧ position ≠ .absent
  counted : position.counted = (state.positions thread).counted
  started : position.started = true → state.main.released = true
  running : state.positions thread ≠ .returned
  silent : state.positions thread ≠ .signal ∨ state.main ≠ .waiting

/-- The parties other than a thread hold the same mutexes when it moves. -/
theorem holds_move
    {another : Party threads}
    (different : another ≠ .thread thread)
    (other : Name threads) :
    Holds (State.move { state with mutexes := mutexes } thread position) another other ↔
      Holds state another other := by
  cases another with
  | main => rfl
  | thread another =>
      have apart : another ≠ thread := fun same => different (by rw [same])
      simp [Holds, State.move, apart]

theorem holds_move_self (other : Name threads) :
    Holds (State.move { state with mutexes := mutexes } thread position) (.thread thread) other ↔
      position.holds thread other := by
  simp [Holds, State.move]

/-- Whatever a thread does to the mutexes, its own move keeps the rest of the invariant. -/
theorem Orderly.moved
    (orderly : Orderly state)
    (onward : Onward state thread position)
    (exclusive :
      Exclusive (Taken (State.move { state with mutexes := mutexes } thread position))
        (Holds (State.move { state with mutexes := mutexes } thread position)))
    (inUse : ∀ name, state.main.inUse name ↔ mutexes name = .unlocked ∨ mutexes name = .locked) :
    Orderly (State.move { state with mutexes := mutexes } thread position) where
  exclusive := exclusive
  inUse := inUse
  created := by
    intro other
    by_cases same : other = thread
    · subst same
      have before := orderly.created other
      simp only [State.move, Function.update_self]
      rw [← before]
      exact iff_of_false onward.present.2 onward.present.1
    · simp only [State.move, Function.update_of_ne same]
      exact orderly.created other
  counted := by
    have sameThreads : countedThreads
        (State.move { state with mutexes := mutexes } thread position) = countedThreads state := by
      ext other
      rw [mem_countedThreads, mem_countedThreads]
      by_cases same : other = thread
      · simp [State.move, same, onward.counted]
      · simp [State.move, same]
    rw [sameThreads]
    exact orderly.counted
  waiting := by
    intro waiting
    rcases orderly.waiting waiting with fewer | ⟨signaller, signals⟩
    · exact Or.inl fewer
    · right
      refine ⟨signaller, ?_⟩
      have different : signaller ≠ thread := by
        rintro rfl
        rcases onward.silent with silent | awake
        · exact silent signals
        · exact awake waiting
      simp only [State.move, Function.update_of_ne different]
      exact signals
  ready := orderly.ready
  started := by
    intro other
    by_cases same : other = thread
    · subst same
      simp only [State.move, Function.update_self]
      exact onward.started
    · simp only [State.move, Function.update_of_ne same]
      exact orderly.started other
  joined := by
    intro other joined
    have returned := orderly.joined other joined
    have different : other ≠ thread := by
      rintro rfl
      exact onward.running returned
    simp only [State.move, Function.update_of_ne different]
    exact returned

/-- A thread locks a mutex. -/
theorem Orderly.threadLocks
    {locked : State threads}
    (orderly : Orderly state)
    (onward : Onward state thread position)
    (locks : state.lock name = some locked)
    (own :
      ∀ other, position.holds thread other ↔
        other = name ∨ (state.positions thread).holds thread other) :
    Orderly (locked.move thread position) := by
  obtain ⟨free, rfl⟩ := change_some locks
  refine orderly.moved onward ?_ (orderly.inUse_update (Or.inl free) (Or.inr rfl))
  refine orderly.exclusive.acquire (.thread thread) name ?_ taken_locked ?_ ?_
  · simp [Taken, free]
  · intro other
    rw [holds_move_self]
    exact own other
  · intro another different other
    exact holds_move different other

/-- A thread unlocks a mutex that it holds. -/
theorem Orderly.threadUnlocks
    {unlocked : State threads}
    (orderly : Orderly state)
    (onward : Onward state thread position)
    (unlocks : state.unlock name = some unlocked)
    (mine : (state.positions thread).holds thread name)
    (own :
      ∀ other, position.holds thread other ↔
        other ≠ name ∧ (state.positions thread).holds thread other) :
    Orderly (unlocked.move thread position) := by
  obtain ⟨taken, rfl⟩ := change_some unlocks
  refine orderly.moved onward ?_ (orderly.inUse_update (Or.inr taken) (Or.inl rfl))
  refine orderly.exclusive.release (.thread thread) name mine
    (taken_unlocked (by simp)) ?_ ?_
  · intro other
    rw [holds_move_self]
    exact own other
  · intro another different other
    exact holds_move different other

/-- A thread goes on with the mutexes that it has. -/
theorem Orderly.threadMoves
    (orderly : Orderly state)
    (onward : Onward state thread position)
    (own :
      ∀ other, position.holds thread other ↔ (state.positions thread).holds thread other) :
    Orderly (state.move thread position) := by
  refine orderly.moved onward ?_ orderly.inUse
  refine orderly.exclusive.same (fun _ => Iff.rfl) ?_
  intro party other
  by_cases same : party = .thread thread
  · subst same
    rw [holds_move_self]
    exact own other
  · exact holds_move same other

/-- The next place of a ring is another one. -/
theorem next_ne (thread : Fin threads) (i : Fin (threads + 1)) : next i ≠ i := by
  intro same
  have values : (i.val + 1) % (threads + 1) = i.val := congrArg Fin.val same
  have inside := thread.isLt
  have bound := i.isLt
  rcases Nat.lt_or_eq_of_le (show i.val + 1 ≤ threads + 1 by omega) with less | last
  · rw [Nat.mod_eq_of_lt less] at values
    omega
  · rw [last, Nat.mod_self] at values
    omega

/-- A thread that finds its start mutex free was let go by `contention`. -/
theorem Orderly.released_of_unlocked
    (orderly : Orderly state)
    (here : state.positions thread = .lockStart)
    (free : state.mutexes (.startMutex thread) = .unlocked) :
    state.main.released = true := by
  have created : state.main.created thread := by
    by_contra missing
    rw [← orderly.created thread, here] at missing
    simp at missing
  have notHeld : ¬ state.main.holds (.startMutex thread) :=
    orderly.exclusive.not_holds (by simp [Taken, free]) .main
  cases main : state.main <;> simp_all [Main.created, Main.holds, Main.released]
  omega

/-- A thread that has not counted itself is not among those counted. -/
theorem Orderly.readyCount_lt
    (orderly : Orderly state)
    (uncounted : (state.positions thread).counted = false) :
    state.readyCount < threads := by
  have missing : thread ∉ countedThreads state := by simp [mem_countedThreads, uncounted]
  have fewer := Finset.card_lt_univ_of_notMem missing
  rw [Fintype.card_fin] at fewer
  rw [orderly.counted]
  exact fewer

/-- A thread counts itself ready. -/
theorem Orderly.threadCounts
    {position : Position threads}
    (orderly : Orderly state)
    (here : state.positions thread = .count)
    (last : position = if state.readyCount + 1 = threads then .signal else .unlockReady) :
    Orderly (State.move { state with readyCount := state.readyCount + 1 } thread position) := by
  have fewer := orderly.readyCount_lt (show (state.positions thread).counted = false by
    simp [here, Position.counted])
  have shape : position = .signal ∨ position = .unlockReady := by
    rw [last]
    split <;> simp
  have holds : ∀ other, position.holds thread other ↔
      (state.positions thread).holds thread other := by
    rcases shape with rfl | rfl <;> simp [here, Position.holds]
  refine ⟨?_, orderly.inUse, ?_, ?_, ?_, ?_, ?_, ?_⟩
  · refine orderly.exclusive.same (fun _ => Iff.rfl) ?_
    intro party other
    by_cases same : party = .thread thread
    · subst same
      simp only [Holds, State.move, Function.update_self]
      exact holds other
    · cases party with
      | main => rfl
      | thread another =>
          have apart : another ≠ thread := fun equal => same (by rw [equal])
          simp only [Holds, State.move, Function.update_of_ne apart]
  · intro other
    by_cases same : other = thread
    · subst same
      have before := orderly.created other
      rw [here] at before
      simp only [State.move, Function.update_self]
      rw [← before]
      rcases shape with rfl | rfl <;> simp
    · simp only [State.move, Function.update_of_ne same]
      exact orderly.created other
  · have grown : countedThreads
        (State.move { state with readyCount := state.readyCount + 1 } thread position) =
          insert thread (countedThreads state) := by
      ext other
      rw [Finset.mem_insert, mem_countedThreads, mem_countedThreads]
      by_cases same : other = thread
      · rcases shape with rfl | rfl <;> simp [State.move, same, Position.counted]
      · simp [State.move, same]
    rw [grown, Finset.card_insert_of_notMem]
    · simp only [State.move]
      rw [orderly.counted]
    · simp [mem_countedThreads, here, Position.counted]
  · intro waiting
    by_cases all : state.readyCount + 1 = threads
    · right
      refine ⟨thread, ?_⟩
      simp [State.move, last, all]
    · left
      simp only [State.move]
      omega
  · intro ready
    have all := orderly.ready ready
    omega
  · intro other
    by_cases same : other = thread
    · rcases shape with rfl | rfl <;> simp [State.move, same, Position.started]
    · simp only [State.move, Function.update_of_ne same]
      exact orderly.started other
  · intro other joined
    have returned := orderly.joined other joined
    have different : other ≠ thread := by
      rintro rfl
      rw [here] at returned
      simp at returned
    simp only [State.move, Function.update_of_ne different]
    exact returned

end Threads

/-! ## Steps of `contention` -/

section Main

variable {main : Main threads} {mutexes : Name threads → Mutex} {name : Name threads}

/-- `contention` goes on without creating a thread. -/
structure Advances (state : State threads) (main : Main threads) : Prop where
  created : ∀ thread : Fin threads, main.created thread ↔ state.main.created thread
  waiting : main = .waiting → state.readyCount < threads
  ready : main.ready = true → state.readyCount = threads
  released : state.main.released = true → main.released = true
  joined : ∀ thread : Fin threads, main.joined thread → state.positions thread = .returned

/-- Whatever `contention` does to the mutexes, its own move keeps the rest of the invariant. -/
theorem Orderly.mainMoved
    (orderly : Orderly state)
    (advances : Advances state main)
    (exclusive :
      Exclusive (Taken (State.moveMain { state with mutexes := mutexes } main))
        (Holds (State.moveMain { state with mutexes := mutexes } main)))
    (inUse : ∀ name, main.inUse name ↔ mutexes name = .unlocked ∨ mutexes name = .locked) :
    Orderly (State.moveMain { state with mutexes := mutexes } main) where
  exclusive := exclusive
  inUse := inUse
  created := by
    intro thread
    simp only [State.moveMain]
    rw [advances.created]
    exact orderly.created thread
  counted := orderly.counted
  waiting := fun waiting => Or.inl (advances.waiting waiting)
  ready := advances.ready
  started := fun thread started => advances.released (orderly.started thread started)
  joined := advances.joined

/-- The threads hold the same mutexes when `contention` moves. -/
theorem holds_moveMain
    {another : Party threads}
    (different : another ≠ .main)
    (other : Name threads) :
    Holds (State.moveMain { state with mutexes := mutexes } main) another other ↔
      Holds state another other := by
  cases another with
  | main => simp at different
  | thread another => rfl

/-- `contention` locks a mutex. -/
theorem Orderly.mainLocks
    {locked : State threads}
    (orderly : Orderly state)
    (advances : Advances state main)
    (locks : state.lock name = some locked)
    (sameUse : ∀ other : Name threads, main.inUse other ↔ state.main.inUse other)
    (own : ∀ other, main.holds other ↔ other = name ∨ state.main.holds other) :
    Orderly (locked.moveMain main) := by
  obtain ⟨free, rfl⟩ := change_some locks
  refine orderly.mainMoved advances ?_ ?_
  · refine orderly.exclusive.acquire .main name ?_ taken_locked own fun _ => holds_moveMain
    simp [Taken, free]
  · intro other
    rw [sameUse]
    exact orderly.inUse_update (Or.inl free) (Or.inr rfl) other

/-- `contention` unlocks a mutex that it holds. -/
theorem Orderly.mainUnlocks
    {unlocked : State threads}
    (orderly : Orderly state)
    (advances : Advances state main)
    (unlocks : state.unlock name = some unlocked)
    (mine : state.main.holds name)
    (sameUse : ∀ other : Name threads, main.inUse other ↔ state.main.inUse other)
    (own : ∀ other, main.holds other ↔ other ≠ name ∧ state.main.holds other) :
    Orderly (unlocked.moveMain main) := by
  obtain ⟨taken, rfl⟩ := change_some unlocks
  refine orderly.mainMoved advances ?_ ?_
  · exact orderly.exclusive.release .main name mine (taken_unlocked (by simp)) own
      fun _ => holds_moveMain
  · intro other
    rw [sameUse]
    exact orderly.inUse_update (Or.inr taken) (Or.inl rfl) other

/-- `contention` goes on with the mutexes as they are. -/
theorem Orderly.mainMoves
    (orderly : Orderly state)
    (advances : Advances state main)
    (sameUse : ∀ other : Name threads, main.inUse other ↔ state.main.inUse other)
    (own : ∀ other : Name threads, main.holds other ↔ state.main.holds other) :
    Orderly (state.moveMain main) := by
  refine orderly.mainMoved advances ?_ ?_
  · refine orderly.exclusive.same (fun _ => Iff.rfl) ?_
    intro party other
    cases party with
    | main => exact own other
    | thread another => rfl
  · intro other
    rw [sameUse]
    exact orderly.inUse other

/-- `contention` initialises or destroys a mutex that nobody has locked. -/
theorem Orderly.mainReplaces
    {latter : Mutex}
    (orderly : Orderly state)
    (advances : Advances state main)
    (notBefore : state.mutexes name ≠ .locked)
    (notBehind : latter ≠ .locked)
    (use :
      ∀ other : Name threads,
        main.inUse other ↔ if other = name then latter = .unlocked else state.main.inUse other)
    (own : ∀ other : Name threads, main.holds other ↔ state.main.holds other) :
    Orderly
      (State.moveMain { state with mutexes := Function.update state.mutexes name latter } main) := by
  refine orderly.mainMoved advances ?_ ?_
  · refine orderly.exclusive.same ?_ ?_
    · intro other
      refine (taken_unlocked notBehind other).trans (and_iff_right_of_imp ?_)
      rintro taken rfl
      exact notBefore taken
    · intro party other
      cases party with
      | main => exact own other
      | thread another => rfl
  · intro other
    rw [use]
    by_cases same : other = name
    · subst same
      simp [notBehind]
    · rw [if_neg same, Function.update_of_ne same]
      exact orderly.inUse other

/-- `contention` initialises a mutex. -/
theorem Orderly.mainInitialises
    (orderly : Orderly state)
    (advances : Advances state main)
    (unused : ¬ state.main.inUse name)
    (use : ∀ other : Name threads, main.inUse other ↔ other = name ∨ state.main.inUse other)
    (own : ∀ other : Name threads, main.holds other ↔ state.main.holds other) :
    Orderly ((state.init name).moveMain main) := by
  refine orderly.mainReplaces advances ?_ (by simp) ?_ own
  · intro locked
    exact unused ((orderly.inUse name).mpr (Or.inr locked))
  · intro other
    rw [use]
    by_cases same : other = name
    · simp [same]
    · simp [same]

/-- `contention` destroys a mutex. -/
theorem Orderly.mainDestroys
    {destroyed : State threads}
    (orderly : Orderly state)
    (advances : Advances state main)
    (destroys : state.destroy name = some destroyed)
    (use : ∀ other : Name threads, main.inUse other ↔ other ≠ name ∧ state.main.inUse other)
    (own : ∀ other : Name threads, main.holds other ↔ state.main.holds other) :
    Orderly (destroyed.moveMain main) := by
  obtain ⟨free, rfl⟩ := change_some destroys
  refine orderly.mainReplaces advances (by simp [free]) (by simp) ?_ own
  intro other
  rw [use]
  by_cases same : other = name
  · simp [same]
  · simp [same]

/-- Once `contention` has left its `while` loop only the joined threads count. -/
theorem Orderly.advances
    (orderly : Orderly state)
    (ready : state.main.ready = true)
    (released : main.released = true)
    (joined : ∀ thread : Fin threads, main.joined thread → state.positions thread = .returned) :
    Advances state main where
  created := by
    intro thread
    have createdNow : state.main.created thread := by
      cases here : state.main <;> simp [here, Main.ready, Main.released, Main.created] at ready ⊢
    have createdNext : main.created thread := by
      cases main <;> simp [Main.released, Main.created] at released ⊢
    exact iff_of_true createdNext createdNow
  waiting := by
    rintro rfl
    simp [Main.released] at released
  ready := fun _ => orderly.ready ready
  released := fun _ => released
  joined := joined

/-- `contention` creates the next thread. -/
theorem Orderly.mainCreates
    (orderly : Orderly state)
    (here : state.main = .create thread) :
    Orderly ((state.move thread .lockFirst).moveMain (.initStart (thread.val + 1))) := by
  have absent : state.positions thread = .absent := by
    rw [orderly.created, here]
    simp [Main.created]
  refine ⟨?_, ?_, ?_, ?_, ?_, ?_, ?_, ?_⟩
  · refine orderly.exclusive.same (fun _ => Iff.rfl) ?_
    intro party other
    cases party with
    | main => simp [Holds, State.moveMain, Main.holds, here]
    | thread another =>
        by_cases same : another = thread
        · simp [Holds, State.move, State.moveMain, same, absent, Position.holds]
        · simp [Holds, State.move, State.moveMain, same]
  · intro other
    have before := orderly.inUse other
    rw [here] at before
    simp only [State.move, State.moveMain]
    rw [← before]
    cases other <;> simp [Main.inUse]
  · intro other
    by_cases same : other = thread
    · simp [State.move, State.moveMain, same, Main.created]
    · have apart : other.val ≠ thread.val := fun equal => same (Fin.ext equal)
      have before := orderly.created other
      rw [here] at before
      simp only [State.move, State.moveMain, Function.update_of_ne same]
      rw [before]
      simp only [Main.created]
      omega
  · have sameThreads : countedThreads
        ((state.move thread .lockFirst).moveMain (.initStart (thread.val + 1))) =
          countedThreads state := by
      ext other
      rw [mem_countedThreads, mem_countedThreads]
      by_cases same : other = thread
      · simp [State.move, State.moveMain, same, absent, Position.counted]
      · simp [State.move, State.moveMain, same]
    rw [sameThreads]
    exact orderly.counted
  · simp [State.moveMain]
  · simp [State.moveMain, Main.ready, Main.released]
  · intro other
    by_cases same : other = thread
    · simp [State.move, State.moveMain, same, Position.started]
    · intro started
      simp only [State.move, State.moveMain, Function.update_of_ne same] at started
      have released := orderly.started other started
      simp [here, Main.released] at released
  · simp [State.moveMain, Main.joined]

/-- `pthread_cond_wait` wakes. -/
theorem Orderly.wakes
    (orderly : Orderly state)
    (asleep : state.main = .waiting) :
    Orderly (state.moveMain .woken) := by
  refine orderly.mainMoves ⟨?_, ?_, ?_, ?_, ?_⟩ ?_ ?_
  · simp [asleep, Main.created]
  · simp
  · simp [Main.ready, Main.released]
  · simp [asleep, Main.released]
  · simp [Main.joined]
  · intro other
    cases other <;> simp [asleep, Main.inUse]
  · simp [asleep, Main.holds]

end Main

/-! ## Every step -/

/-- What is left of two mutexes when one of them is given back. -/
private theorem left_iff
    {kept gone other : Name threads}
    (apart : kept ≠ gone) :
    other = kept ↔ other ≠ gone ∧ (other = kept ∨ other = gone) := by
  constructor
  · rintro rfl
    exact ⟨apart, Or.inl rfl⟩
  · rintro ⟨different, same | same⟩
    · exact same
    · exact absurd same different

/-- A thread signals, and `contention` wakes where it is asleep. -/
private theorem Orderly.threadSignals
    (orderly : Orderly state)
    (here : state.positions thread = .signal) :
    Orderly (state.signal.move thread .unlockReady) := by
  by_cases asleep : state.main = .waiting
  · rw [State.signal, if_pos asleep]
    refine (orderly.wakes asleep).threadMoves ?_ ?_
    · constructor <;> simp [here, Position.counted, Position.started]
    · simp [here, Position.holds]
  · rw [State.signal, if_neg asleep]
    refine orderly.threadMoves ?_ ?_
    · constructor <;> simp [here, asleep, Position.counted, Position.started]
    · simp [here, Position.holds]

/-- A thread goes on in its loop or leaves it. -/
private theorem Orderly.threadLoops
    {i : Fin (threads + 1)}
    {j : Nat}
    {position : Position threads}
    (orderly : Orderly state)
    (here : state.positions thread = .loop i j)
    (released : state.main.released = true)
    (next : position = .lockNext i j ∨ position = .unlockLast i) :
    Orderly (state.move thread position) := by
  rcases next with rfl | rfl <;> refine orderly.threadMoves ?_ ?_
  · constructor <;> simp [here, released, Position.counted]
  · simp [here, Position.holds]
  · constructor <;> simp [here, released, Position.counted]
  · simp [here, Position.holds]

/-- Every step of a thread keeps the invariant. -/
theorem Orderly.threadStep
    (orderly : Orderly state)
    (step : contentionThread reps state thread = some after) :
    Orderly after := by
  have startedNow := orderly.started thread
  cases here : state.positions thread with
  | absent => simp [contentionThread, here] at step
  | lockFirst =>
      simp only [contentionThread, here] at step
      obtain ⟨locked, locks, rfl⟩ := Option.map_eq_some_iff.mp step
      refine orderly.threadLocks ?_ locks ?_
      · constructor <;> simp [here, Position.counted, Position.started]
      · simp [here, Position.holds]
  | lockReady =>
      simp only [contentionThread, here] at step
      obtain ⟨locked, locks, rfl⟩ := Option.map_eq_some_iff.mp step
      refine orderly.threadLocks ?_ locks ?_
      · constructor <;> simp [here, Position.counted, Position.started]
      · simp [here, Position.holds, or_comm]
  | count =>
      simp only [contentionThread, here] at step
      obtain rfl := Option.some.inj step
      exact orderly.threadCounts here rfl
  | signal =>
      simp only [contentionThread, here] at step
      obtain rfl := Option.some.inj step
      exact orderly.threadSignals here
  | unlockReady =>
      simp only [contentionThread, here] at step
      obtain ⟨unlocked, unlocks, rfl⟩ := Option.map_eq_some_iff.mp step
      refine orderly.threadUnlocks ?_ unlocks ?_ ?_
      · constructor <;> simp [here, Position.counted, Position.started]
      · simp [here, Position.holds]
      · intro other
        rw [here]
        exact left_iff (by simp)
  | lockStart =>
      simp only [contentionThread, here] at step
      obtain ⟨locked, locks, rfl⟩ := Option.map_eq_some_iff.mp step
      have released := orderly.released_of_unlocked here (change_some locks).1
      refine orderly.threadLocks ?_ locks ?_
      · constructor <;> simp [here, released, Position.counted]
      · simp [here, Position.holds, or_comm]
  | unlockStart =>
      simp only [contentionThread, here] at step
      obtain ⟨unlocked, unlocks, rfl⟩ := Option.map_eq_some_iff.mp step
      have released := startedNow (by simp [here, Position.started])
      refine orderly.threadUnlocks ?_ unlocks ?_ ?_
      · constructor <;> simp [here, released, Position.counted]
      · simp [here, Position.holds]
      · intro other
        rw [here]
        exact left_iff (by simp)
  | loop i j =>
      simp only [contentionThread, here] at step
      obtain rfl := Option.some.inj step
      have released := startedNow (by simp [here, Position.started])
      refine orderly.threadLoops here released ?_
      split <;> simp
  | lockNext i j =>
      simp only [contentionThread, here] at step
      obtain ⟨locked, locks, rfl⟩ := Option.map_eq_some_iff.mp step
      have released := startedNow (by simp [here, Position.started])
      refine orderly.threadLocks ?_ locks ?_
      · constructor <;> simp [here, released, Position.counted]
      · simp [here, Position.holds, or_comm]
  | unlockBehind i j =>
      simp only [contentionThread, here] at step
      obtain ⟨unlocked, unlocks, rfl⟩ := Option.map_eq_some_iff.mp step
      have released := startedNow (by simp [here, Position.started])
      refine orderly.threadUnlocks ?_ unlocks ?_ ?_
      · constructor <;> simp [here, released, Position.counted]
      · simp [here, Position.holds]
      · intro other
        rw [here]
        simp only [Position.holds]
        rw [or_comm]
        exact left_iff (by simpa using next_ne thread i)
  | unlockLast i =>
      simp only [contentionThread, here] at step
      obtain ⟨unlocked, unlocks, rfl⟩ := Option.map_eq_some_iff.mp step
      have released := startedNow (by simp [here, Position.started])
      refine orderly.threadUnlocks ?_ unlocks ?_ ?_
      · constructor <;> simp [here, released, Position.counted]
      · simp [here, Position.holds]
      · simp [here, Position.holds]
  | returned => simp [contentionThread, here] at step

/-- Nobody has counted itself before the first thread is created. -/
theorem Orderly.readyCount_eq_zero
    (orderly : Orderly state)
    (here : state.main = .initReady) :
    state.readyCount = 0 := by
  rw [orderly.counted, Finset.card_eq_zero, Finset.eq_empty_iff_forall_notMem]
  intro thread
  have absent : state.positions thread = .absent := by
    rw [orderly.created, here]
    simp [Main.created]
  simp [mem_countedThreads, absent, Position.counted]

/-- The mutexes of the ring are initialised. -/
private theorem Orderly.initMutex
    {index : Nat}
    (orderly : Orderly state)
    (here : state.main = .initMutex index)
    (step : Contention.contention state = some after) :
    Orderly after := by
  simp only [Contention.contention, here] at step
  split at step
  · obtain rfl := Option.some.inj step
    refine orderly.mainInitialises ?_ (by simp [here, Main.inUse]) ?_ ?_
    · constructor <;> simp [here, Main.created, Main.ready, Main.released, Main.joined]
    · intro other
      cases other <;> simp [here, Main.inUse, Fin.ext_iff]
      omega
    · simp [here, Main.holds]
  · obtain rfl := Option.some.inj step
    refine orderly.mainMoves ?_ ?_ ?_
    · constructor <;> simp [here, Main.created, Main.ready, Main.released, Main.joined]
    · intro other
      cases other <;> simp [here, Main.inUse]
      omega
    · simp [here, Main.holds]

/-- `ready_mutex` is initialised, and nobody has counted itself. -/
private theorem Orderly.initReady
    (orderly : Orderly state)
    (here : state.main = .initReady)
    (step : Contention.contention state = some after) :
    Orderly after := by
  have kept : { state.init .readyMutex with readyCount := 0 } = state.init .readyMutex := by
    simp [State.init, orderly.readyCount_eq_zero here]
  simp only [Contention.contention, here, kept] at step
  obtain rfl := Option.some.inj step
  refine orderly.mainInitialises ?_ (by simp [here, Main.inUse]) ?_ ?_
  · constructor <;> simp [here, Main.created, Main.ready, Main.released, Main.joined]
  · intro other
    cases other <;> simp [here, Main.inUse]
  · simp [here, Main.holds]

/-- A start mutex is initialised, or the threads have all been created. -/
private theorem Orderly.initStart
    {first : Nat}
    (orderly : Orderly state)
    (here : state.main = .initStart first)
    (step : Contention.contention state = some after) :
    Orderly after := by
  simp only [Contention.contention, here] at step
  split at step
  · obtain rfl := Option.some.inj step
    refine orderly.mainInitialises ?_ (by simp [here, Main.inUse]) ?_ ?_
    · constructor <;> simp [here, Main.created, Main.ready, Main.released, Main.joined]
      exact fun _ => Iff.rfl
    · intro other
      cases other with
      | startMutex thread =>
          simp only [here, Main.inUse, Name.startMutex.injEq, Fin.ext_iff, Fin.le_def]
          omega
      | _ => simp [here, Main.inUse]
    · rw [here]
      exact fun _ => Iff.rfl
  · obtain rfl := Option.some.inj step
    have all : ∀ thread : Fin threads, thread.val < first := fun thread => by omega
    refine orderly.mainMoves ?_ ?_ ?_
    · constructor <;> simp [here, all, Main.created, Main.ready, Main.released, Main.joined]
    · intro other
      cases other <;> simp [here, all, Main.inUse]
    · simp [here, all, Main.holds]

/-- A start mutex is locked before its thread is created. -/
private theorem Orderly.lockStart
    {last : Fin threads}
    (orderly : Orderly state)
    (here : state.main = .lockStart last)
    (step : Contention.contention state = some after) :
    Orderly after := by
  simp only [Contention.contention, here] at step
  obtain ⟨locked, locks, rfl⟩ := Option.map_eq_some_iff.mp step
  refine orderly.mainLocks ?_ locks ?_ ?_
  · constructor <;> simp [here, Main.created, Main.ready, Main.released, Main.joined]
  · intro other
    cases other <;> simp [here, Main.inUse]
  · intro other
    cases other with
    | startMutex thread => simp [here, Main.holds, le_iff_eq_or_lt]
    | _ => simp [here, Main.holds]

/-- `ready_mutex` is locked for the test of the `while` loop. -/
private theorem Orderly.locksReady
    (orderly : Orderly state)
    (here : state.main = .lockReady ∨ state.main = .woken)
    (step : Contention.contention state = some after) :
    Orderly after := by
  rcases here with here | here <;> simp only [Contention.contention, here] at step
  all_goals
    obtain ⟨locked, locks, rfl⟩ := Option.map_eq_some_iff.mp step
    refine orderly.mainLocks ?_ locks ?_ ?_
    · constructor <;> simp [here, Main.created, Main.ready, Main.released, Main.joined]
    · intro other
      cases other <;> simp [here, Main.inUse]
    · simp [here, Main.holds]

/-- The `while` loop waits, or has seen all threads. -/
private theorem Orderly.test
    (orderly : Orderly state)
    (here : state.main = .test)
    (step : Contention.contention state = some after) :
    Orderly after := by
  simp only [Contention.contention, here] at step
  split at step
  · rename_i fewer
    obtain ⟨unlocked, unlocks, rfl⟩ := Option.map_eq_some_iff.mp step
    refine orderly.mainUnlocks ?_ unlocks ?_ ?_ ?_
    · constructor <;>
        simp [here, fewer, Main.created, Main.ready, Main.released, Main.joined]
    · simp [here, Main.holds]
    · intro other
      cases other <;> simp [here, Main.inUse]
    · intro other
      cases other <;> simp [here, Main.holds]
  · rename_i enough
    obtain rfl := Option.some.inj step
    have all : state.readyCount = threads := by
      have most := Finset.card_le_univ (countedThreads state)
      rw [Fintype.card_fin, ← orderly.counted] at most
      omega
    refine orderly.mainMoves ?_ ?_ ?_
    · constructor <;> simp [here, all, Main.created, Main.released, Main.joined]
    · intro other
      cases other <;> simp [here, Main.inUse]
    · simp [here, Main.holds]

/-- `ready_mutex` is given back. -/
private theorem Orderly.unlockReady
    (orderly : Orderly state)
    (here : state.main = .unlockReady)
    (step : Contention.contention state = some after) :
    Orderly after := by
  have ready : state.main.ready = true := by rw [here]; rfl
  simp only [Contention.contention, here] at step
  obtain ⟨unlocked, unlocks, rfl⟩ := Option.map_eq_some_iff.mp step
  refine orderly.mainUnlocks (orderly.advances ready rfl ?_) unlocks ?_ ?_ ?_
  · simp [Main.joined]
  · simp [here, Main.holds]
  · intro other
    cases other <;> simp [here, Main.inUse]
  · intro other
    cases other <;> simp [here, Main.holds]

/-- The threads are let go one by one. -/
private theorem Orderly.unlockStart
    {first : Nat}
    (orderly : Orderly state)
    (here : state.main = .unlockStart first)
    (step : Contention.contention state = some after) :
    Orderly after := by
  have ready : state.main.ready = true := by rw [here]; rfl
  simp only [Contention.contention, here] at step
  split at step
  · obtain ⟨unlocked, unlocks, rfl⟩ := Option.map_eq_some_iff.mp step
    refine orderly.mainUnlocks (orderly.advances ready rfl ?_) unlocks ?_ ?_ ?_
    · simp [Main.joined]
    · simp [here, Main.holds]
    · intro other
      cases other <;> simp [here, Main.inUse]
    · intro other
      cases other <;> simp [here, Main.holds]
      rw [Fin.ext_iff]
      simp only
      omega
  · obtain rfl := Option.some.inj step
    refine orderly.mainMoves (orderly.advances ready rfl ?_) ?_ ?_
    · simp [Main.joined]
    · intro other
      cases other <;> simp [here, Main.inUse]
    · intro other
      cases other <;> simp [here, Main.holds]
      omega

/-- A thread that has returned is joined. -/
private theorem Orderly.join
    {first : Nat}
    (orderly : Orderly state)
    (here : state.main = .join first)
    (step : Contention.contention state = some after) :
    Orderly after := by
  have ready : state.main.ready = true := by rw [here]; rfl
  have joinedNow := orderly.joined
  simp only [Contention.contention, here] at step
  split at step
  · split at step
    · rename_i inside returned
      obtain rfl := Option.some.inj step
      refine orderly.mainMoves (orderly.advances ready rfl ?_) ?_ ?_
      · intro thread joined
        rcases Nat.lt_or_eq_of_le joined with before | same
        · exact joinedNow thread (by simpa [here, Main.joined] using before)
        · obtain rfl : thread = ⟨first, inside⟩ := Fin.ext same
          exact returned
      · intro other
        cases other with
        | startMutex thread =>
            rw [here]
            exact Iff.rfl
        | _ => simp [here, Main.inUse]
      · simp [here, Main.holds]
    · simp at step
  · obtain rfl := Option.some.inj step
    refine orderly.mainMoves (orderly.advances ready rfl ?_) ?_ ?_
    · intro thread _
      exact joinedNow thread (by simp only [here, Main.joined]; omega)
    · intro other
      cases other <;> simp [here, Main.inUse]
      omega
    · simp [here, Main.holds]

/-- The start mutex of a joined thread is destroyed. -/
private theorem Orderly.destroyStart
    {last : Fin threads}
    (orderly : Orderly state)
    (here : state.main = .destroyStart last)
    (step : Contention.contention state = some after) :
    Orderly after := by
  have ready : state.main.ready = true := by rw [here]; rfl
  have joinedNow := orderly.joined
  simp only [Contention.contention, here] at step
  obtain ⟨destroyed, destroys, rfl⟩ := Option.map_eq_some_iff.mp step
  refine orderly.mainDestroys (orderly.advances ready rfl ?_) destroys ?_ ?_
  · intro thread joined
    exact joinedNow thread (by simpa [here, Main.joined] using joined)
  · intro other
    cases other with
    | startMutex thread =>
        simp only [here, Main.inUse, ne_eq, Name.startMutex.injEq, Fin.ext_iff, Fin.le_def]
        omega
    | _ => simp [here, Main.inUse]
  · simp [here, Main.holds]

/-- The mutexes of the ring are destroyed. -/
private theorem Orderly.destroyMutex
    {first : Nat}
    (orderly : Orderly state)
    (here : state.main = .destroyMutex first)
    (step : Contention.contention state = some after) :
    Orderly after := by
  have ready : state.main.ready = true := by rw [here]; rfl
  have joinedNow := orderly.joined
  have returned : ∀ thread, state.positions thread = .returned :=
    fun thread => joinedNow thread (by simp [here, Main.joined])
  simp only [Contention.contention, here] at step
  split at step
  · obtain ⟨destroyed, destroys, rfl⟩ := Option.map_eq_some_iff.mp step
    refine orderly.mainDestroys (orderly.advances ready rfl fun thread _ => returned thread)
      destroys ?_ ?_
    · intro other
      cases other <;> simp [here, Main.inUse, Fin.ext_iff]
      omega
    · simp [here, Main.holds]
  · obtain rfl := Option.some.inj step
    refine orderly.mainMoves (orderly.advances ready rfl fun thread _ => returned thread) ?_ ?_
    · intro other
      cases other <;> simp [here, Main.inUse]
      omega
    · simp [here, Main.holds]

/-- `ready_mutex` is destroyed last. -/
private theorem Orderly.destroyReady
    (orderly : Orderly state)
    (here : state.main = .destroyReady)
    (step : Contention.contention state = some after) :
    Orderly after := by
  have ready : state.main.ready = true := by rw [here]; rfl
  have joinedNow := orderly.joined
  have returned : ∀ thread, state.positions thread = .returned :=
    fun thread => joinedNow thread (by simp [here, Main.joined])
  simp only [Contention.contention, here] at step
  obtain ⟨destroyed, destroys, rfl⟩ := Option.map_eq_some_iff.mp step
  refine orderly.mainDestroys (orderly.advances ready rfl fun thread _ => returned thread)
    destroys ?_ ?_
  · intro other
    cases other <;> simp [here, Main.inUse]
  · simp [here, Main.holds]

/-- Every step of `contention` keeps the invariant. -/
theorem Orderly.mainStep
    (orderly : Orderly state)
    (step : Contention.contention state = some after) :
    Orderly after := by
  cases here : state.main with
  | initMutex index => exact orderly.initMutex here step
  | initReady => exact orderly.initReady here step
  | initStart first => exact orderly.initStart here step
  | lockStart last => exact orderly.lockStart here step
  | create last =>
      simp only [Contention.contention, here] at step
      obtain rfl := Option.some.inj step
      exact orderly.mainCreates here
  | lockReady => exact orderly.locksReady (Or.inl here) step
  | test => exact orderly.test here step
  | waiting => simp [Contention.contention, here] at step
  | woken => exact orderly.locksReady (Or.inr here) step
  | unlockReady => exact orderly.unlockReady here step
  | unlockStart first => exact orderly.unlockStart here step
  | join first => exact orderly.join here step
  | destroyStart last => exact orderly.destroyStart here step
  | destroyMutex first => exact orderly.destroyMutex here step
  | destroyReady => exact orderly.destroyReady here step
  | returned => simp [Contention.contention, here] at step

/-- Every event keeps the invariant. -/
theorem Orderly.step
    {event : Event threads}
    (orderly : Orderly state)
    (step : Step reps state event after) :
    Orderly after := by
  cases event with
  | main => exact orderly.mainStep step
  | thread thread => exact orderly.threadStep step
  | spurious =>
      simp only [Step, perform] at step
      split at step
      · obtain rfl := Option.some.inj step
        exact orderly.wakes ‹_›
      · simp at step

theorem orderly_initial : Orderly (State.initial : State threads) where
  exclusive :=
    { held := by
        intro name
        simp only [Taken, State.initial, reduceCtorEq, false_iff, not_exists]
        rintro (_ | _) holds <;> exact holds
      alone := by
        rintro name (_ | _) second holds <;> exact holds.elim }
  inUse := by
    intro name
    cases name <;> simp [State.initial, Main.inUse]
  created := by simp [State.initial, Main.created]
  counted := by simp [State.initial, countedThreads, Position.counted]
  waiting := by simp [State.initial]
  ready := by simp [State.initial, Main.ready, Main.released]
  started := by simp [State.initial, Position.started]
  joined := by simp [State.initial, Main.joined]

theorem orderly_reachable
    (reachable : Reachable (Step reps) State.initial state) :
    Orderly state :=
  reachable.invariant orderly_initial fun orderly step => orderly.step step

/-! ## Somebody can go on -/

/-- A thread or `contention` can take a step of its own. -/
def CanStep (reps : Int) (state : State threads) : Prop :=
  (∃ after, contention state = some after) ∨
    ∃ thread after, contentionThread reps state thread = some after

/-- The mutex a thread is about to lock. -/
def Position.wants (thread : Fin threads) : Position threads → Option (Name threads)
  | .lockFirst => some (.mutexes thread.castSucc)
  | .lockReady => some .readyMutex
  | .lockStart => some (.startMutex thread)
  | .lockNext i _ => some (.mutexes (next i))
  | _ => none

section Progress

variable {name : Name threads}

theorem change_eq
    {former : Mutex}
    (latter : Mutex)
    (before : state.mutexes name = former) :
    state.change name former latter =
      some { state with mutexes := Function.update state.mutexes name latter } :=
  if_pos before

/-- A mutex in use that nobody holds can be locked. -/
theorem Orderly.lock_of_free
    (orderly : Orderly state)
    (inUse : state.main.inUse name)
    (free : ∀ party, ¬ Holds state party name) :
    ∃ locked, state.lock name = some locked := by
  rcases (orderly.inUse name).mp inUse with unlocked | locked
  · exact ⟨_, change_eq .locked unlocked⟩
  · obtain ⟨party, holds⟩ := (orderly.exclusive.held name).mp locked
    exact absurd holds (free party)

/-- A party can unlock what it holds. -/
theorem Orderly.unlock_of_holds
    {party : Party threads}
    (orderly : Orderly state)
    (holds : Holds state party name) :
    ∃ unlocked, state.unlock name = some unlocked :=
  ⟨_, change_eq .unlocked (orderly.exclusive.taken_of_holds holds)⟩

/-- A thread can go on unless it waits for a mutex. -/
theorem Orderly.thread_goes_on
    (orderly : Orderly state)
    (present : state.positions thread ≠ .absent)
    (running : state.positions thread ≠ .returned)
    (free :
      ∀ name,
        (state.positions thread).wants thread = some name →
        ∃ locked, state.lock name = some locked) :
    ∃ after, contentionThread reps state thread = some after := by
  have unlocks : ∀ name, (state.positions thread).holds thread name →
      ∃ unlocked, state.unlock name = some unlocked :=
    fun name holds => orderly.unlock_of_holds (show Holds state (.thread thread) name from holds)
  cases here : state.positions thread with
  | absent => exact absurd here present
  | lockFirst | lockReady | lockStart | lockNext i j =>
      obtain ⟨locked, locks⟩ := free _ (by rw [here]; rfl)
      exact ⟨_, by rw [contentionThread, here]; simp only [locks]; rfl⟩
  | count | signal | loop i j =>
      exact ⟨_, by rw [contentionThread, here]⟩
  | unlockReady =>
      obtain ⟨unlocked, unlocks⟩ := unlocks .readyMutex (by simp [here, Position.holds])
      exact ⟨_, by rw [contentionThread, here]; simp only [unlocks]; rfl⟩
  | unlockStart =>
      obtain ⟨unlocked, unlocks⟩ := unlocks (.startMutex thread) (by simp [here, Position.holds])
      exact ⟨_, by rw [contentionThread, here]; simp only [unlocks]; rfl⟩
  | unlockBehind i j | unlockLast i =>
      obtain ⟨unlocked, unlocks⟩ := unlocks (.mutexes i) (by simp [here, Position.holds])
      exact ⟨_, by rw [contentionThread, here]; simp only [unlocks]; rfl⟩
  | returned => exact absurd here running

/-- Whoever holds `ready_mutex` can go on, so it can be had or somebody can move. -/
theorem Orderly.readyMutex_free
    (orderly : Orderly state)
    (inUse : state.main.inUse .readyMutex) :
    CanStep reps state ∨ ∃ locked, state.lock .readyMutex = some locked := by
  by_cases held : ∃ party, Holds state party .readyMutex
  · left
    obtain ⟨party, holds⟩ := held
    cases party with
    | main =>
        left
        obtain ⟨unlocked, unlocks⟩ := orderly.unlock_of_holds holds
        cases here : state.main <;> simp [Holds, here, Main.holds] at holds
        · rw [contention, here]
          simp only [unlocks]
          split
          · exact ⟨_, rfl⟩
          · exact ⟨_, rfl⟩
        · exact ⟨_, by rw [contention, here]; simp only [unlocks]; rfl⟩
    | thread thread =>
        right
        refine ⟨thread, orderly.thread_goes_on ?_ ?_ ?_⟩ <;>
          cases here : state.positions thread <;>
            simp [Holds, here, Position.holds, Position.wants] at holds ⊢
  · right
    exact orderly.lock_of_free inUse fun party holds => held ⟨party, holds⟩

/-- Only its own thread and `contention` ever hold a start mutex. -/
theorem Orderly.startMutex_free
    (orderly : Orderly state)
    (thread : Fin threads)
    (inUse : state.main.inUse (.startMutex thread))
    (main : ¬ state.main.holds (.startMutex thread))
    (elsewhere : state.positions thread ≠ .unlockStart) :
    ∃ locked, state.lock (.startMutex thread) = some locked := by
  refine orderly.lock_of_free inUse ?_
  intro party holds
  cases party with
  | main => exact main holds
  | thread other =>
      cases here : state.positions other <;> simp [Holds, here, Position.holds] at holds
      subst holds
      exact elsewhere here

/-- While the line-up lasts, a thread finds its first mutex free. -/
theorem Orderly.firstMutex_free
    (orderly : Orderly state)
    (lineUp : state.main.released = false)
    (inUse : state.main.inUse (.mutexes thread.castSucc))
    (here : state.positions thread = .lockFirst) :
    ∃ locked, state.lock (.mutexes thread.castSucc) = some locked := by
  refine orderly.lock_of_free inUse ?_
  intro party holds
  cases party with
  | main => cases main : state.main <;> simp [Holds, main, Main.holds] at holds
  | thread other =>
      have notStarted : (state.positions other).started = false := by
        rw [← Bool.not_eq_true]
        intro started
        rw [orderly.started other started] at lineUp
        simp at lineUp
      have isThread : other = thread := by
        cases there : state.positions other <;>
          simp_all [Holds, Position.holds, Position.started]
      rw [Holds, isThread, here] at holds
      exact holds

/-- Before everybody has reported, `contention` does not wait in vain. -/
theorem Orderly.canStep_waiting
    (orderly : Orderly state)
    (asleep : state.main = .waiting) :
    CanStep reps state := by
  rcases orderly.waiting asleep with fewer | ⟨signaller, signals⟩
  · have missing : ∃ thread, thread ∉ countedThreads state := by
      by_contra all
      push Not at all
      rw [orderly.counted, Finset.eq_univ_iff_forall.mpr all, Finset.card_univ,
        Fintype.card_fin] at fewer
      omega
    obtain ⟨thread, uncounted⟩ := missing
    have present : state.positions thread ≠ .absent := by
      rw [ne_eq, orderly.created, asleep]
      simp [Main.created]
    have running : state.positions thread ≠ .returned := by
      intro returned
      simp [mem_countedThreads, returned, Position.counted] at uncounted
    rcases @Orderly.readyMutex_free _ reps _ orderly (by simp [asleep, Main.inUse]) with
      goesOn | readyFree
    · exact goesOn
    · refine Or.inr ⟨thread, orderly.thread_goes_on present running ?_⟩
      intro name wants
      cases here : state.positions thread <;>
        simp [mem_countedThreads, here, Position.counted, Position.wants] at uncounted wants
      · rw [← wants]
        exact orderly.firstMutex_free (by simp [asleep, Main.released])
          (by simp [asleep, Main.inUse]) here
      · rw [← wants]
        exact readyFree
  · refine Or.inr ⟨signaller, orderly.thread_goes_on ?_ ?_ ?_⟩ <;>
      simp [signals, Position.wants]

/-- A thread that cannot go on once all have reported waits for the next mutex of the ring. -/
theorem Orderly.waits_of_stuck
    (orderly : Orderly state)
    {first : Nat}
    (joining : state.main = .join first)
    (running : state.positions thread ≠ .returned)
    (stuck : ∀ after, contentionThread reps state thread ≠ some after) :
    ∃ i j, state.positions thread = .lockNext i j ∧ Taken state (.mutexes (next i)) := by
  have all := orderly.ready (by simp [joining, Main.ready, Main.released])
  have present : state.positions thread ≠ .absent := by
    rw [ne_eq, orderly.created, joining]
    simp [Main.created]
  have counted : (state.positions thread).counted = true := by
    by_contra uncounted
    have fewer := orderly.readyCount_lt (by simpa using uncounted)
    omega
  have waits : ∃ name, (state.positions thread).wants thread = some name ∧
      ∀ locked, state.lock name ≠ some locked := by
    by_contra free
    push Not at free
    obtain ⟨after, step⟩ := orderly.thread_goes_on present running free
    exact stuck after step
  obtain ⟨name, wants, busy⟩ := waits
  have notJoined : first ≤ thread.val := by
    by_contra joined
    exact running (orderly.joined thread (by rw [joining]; simp only [Main.joined]; omega))
  cases here : state.positions thread <;>
    simp [here, Position.counted, Position.wants] at counted wants
  · -- The start mutex is free by now.
    obtain ⟨locked, locks⟩ := orderly.startMutex_free thread
      (by simp [joining, Main.inUse, notJoined]) (by simp [joining, Main.holds]) (by simp [here])
    rw [wants] at locks
    exact absurd locks (busy locked)
  · rename_i i j
    refine ⟨i, j, rfl, ?_⟩
    rw [wants]
    by_contra free
    rcases (orderly.inUse name).mp (by rw [← wants]; simp [joining, Main.inUse]) with
      unlocked | locked
    · exact busy _ (change_eq .locked unlocked)
    · exact free locked

/-- Once all have reported, the ring has a free mutex that somebody waits for. -/
theorem Orderly.canStep_join
    (orderly : Orderly state)
    {first : Nat}
    (joining : state.main = .join first)
    (someone : ∃ thread, state.positions thread ≠ .returned) :
    CanStep reps state := by
  by_contra nobody
  have stuck : ∀ thread after, contentionThread reps state thread ≠ some after :=
    fun thread after step => nobody (Or.inr ⟨thread, after, step⟩)
  let waiting : Finset (Fin threads) :=
    Finset.univ.filter fun thread => state.positions thread ≠ .returned
  let place : Fin threads → Fin (threads + 1) := fun thread =>
    match state.positions thread with
    | .lockNext i _ => i
    | _ => 0
  have occupied : waiting.Nonempty := by
    obtain ⟨thread, running⟩ := someone
    exact ⟨thread, by simp [waiting, running]⟩
  obtain ⟨thread, member, nobodyNext⟩ := exists_next_unoccupied place occupied
  obtain ⟨i, j, here, taken⟩ :=
    orderly.waits_of_stuck joining (by simpa [waiting] using member) (stuck thread)
  obtain ⟨party, holds⟩ := (orderly.exclusive.held _).mp taken
  cases party with
  | main => simp [Holds, joining, Main.holds] at holds
  | thread holder =>
      have running : state.positions holder ≠ .returned := by
        intro returned
        rw [Holds, returned] at holds
        exact holds
      obtain ⟨at', round, there, _⟩ := orderly.waits_of_stuck joining running (stuck holder)
      have same : next i = at' := by simpa [Holds, there, Position.holds] using holds
      apply nobodyNext holder (by simp [waiting, running])
      simp only [place, here, there]
      rw [← same, next_eq]

/-- As long as a thread has not returned, somebody can take a step. -/
theorem Orderly.canStep
    (orderly : Orderly state)
    (someone : ∃ thread, state.positions thread ≠ .returned) :
    CanStep reps state := by
  have allJoined : (∀ thread, state.main.joined thread) → False := by
    intro joined
    obtain ⟨thread, running⟩ := someone
    exact running (orderly.joined thread (joined thread))
  have mainHolds : ∀ name, state.main.holds name → ∃ unlocked, state.unlock name = some unlocked :=
    fun name holds => orderly.unlock_of_holds (show Holds state .main name from holds)
  cases here : state.main with
  | initMutex index =>
      left
      rw [contention, here]
      simp only
      split <;> exact ⟨_, rfl⟩
  | initReady => exact Or.inl ⟨_, by rw [contention, here]⟩
  | initStart first =>
      left
      rw [contention, here]
      simp only
      split <;> exact ⟨_, rfl⟩
  | lockStart last =>
      have absent : state.positions last = .absent := by
        rw [orderly.created, here]
        simp [Main.created]
      obtain ⟨locked, locks⟩ := orderly.startMutex_free last
        (by simp [here, Main.inUse]) (by simp [here, Main.holds]) (by simp [absent])
      exact Or.inl ⟨_, by rw [contention, here]; simp only [locks]; rfl⟩
  | create last => exact Or.inl ⟨_, by rw [contention, here]⟩
  | lockReady | woken =>
      rcases @Orderly.readyMutex_free _ reps _ orderly (by simp [here, Main.inUse]) with
        goesOn | ⟨locked, locks⟩
      · exact goesOn
      · exact Or.inl ⟨_, by rw [contention, here]; simp only [locks]; rfl⟩
  | test =>
      obtain ⟨unlocked, unlocks⟩ := mainHolds .readyMutex (by simp [here, Main.holds])
      left
      rw [contention, here]
      simp only [unlocks]
      split <;> exact ⟨_, rfl⟩
  | waiting => exact orderly.canStep_waiting here
  | unlockReady =>
      obtain ⟨unlocked, unlocks⟩ := mainHolds .readyMutex (by simp [here, Main.holds])
      exact Or.inl ⟨_, by rw [contention, here]; simp only [unlocks]; rfl⟩
  | unlockStart first =>
      left
      by_cases inside : first < threads
      · obtain ⟨unlocked, unlocks⟩ := mainHolds (.startMutex ⟨first, inside⟩)
          (by simp [here, Main.holds])
        exact ⟨_, by rw [contention, here]; simp only [dif_pos inside, unlocks]; rfl⟩
      · exact ⟨_, by rw [contention, here]; simp only [dif_neg inside]; rfl⟩
  | join first => exact orderly.canStep_join here someone
  | destroyStart last =>
      have returned := orderly.joined last (by simp [here, Main.joined])
      obtain ⟨locked, locks⟩ := orderly.startMutex_free last
        (by simp [here, Main.inUse]) (by simp [here, Main.holds]) (by simp [returned])
      have destroys := change_eq .destroyed (change_some locks).1
      exact Or.inl ⟨_, by rw [contention, here]; simp only [State.destroy, destroys]; rfl⟩
  | destroyMutex first => exact (allJoined (by simp [here, Main.joined])).elim
  | destroyReady => exact (allJoined (by simp [here, Main.joined])).elim
  | returned => exact (allJoined (by simp [here, Main.joined])).elim

end Progress

/--
For every number of threads and rounds and in every interleaving, each mutex is held by
one party at most, and as long as a thread has not returned, some thread or `contention`
can take a step.
-/
theorem contention_never_stuck
    (reachable : Reachable (Step reps) State.initial state) :
    (∀ name first second,
      Holds state first name → Holds state second name → first = second) ∧
      ((∃ thread, state.positions thread ≠ .returned) → CanStep reps state) := by
  have orderly := orderly_reachable reachable
  exact ⟨orderly.exclusive.alone, orderly.canStep⟩

/-- Two threads line up, and the first one goes on to the mutex of the second. -/
theorem contention_goes_on :
    ∃ state : State 2,
      Reachable (Step 8) State.initial state ∧
        contentionThread 8 state 0 = none ∧ CanStep 8 state := by
  have run : ∃ (events : List (Event 2)) (state : State 2),
      events.foldlM (perform 8) State.initial = some state ∧
        contentionThread 8 state 0 = none ∧ state.positions 0 = .lockNext 0 1 :=
    ⟨List.replicate 14 .main ++ List.replicate 4 (.thread 0) ++ List.replicate 5 (.thread 1) ++
      List.replicate 5 .main ++ List.replicate 3 (.thread 0), _, rfl, rfl, rfl⟩
  obtain ⟨events, state, computed, blocked, here⟩ := run
  have reachable : Reachable (Step 8) State.initial state :=
    ⟨events, Run.of_foldlM (fun performed => performed) computed⟩
  exact ⟨state, reachable, blocked, (contention_never_stuck reachable).2 ⟨0, by rw [here]; simp⟩⟩

end Sysprog.Contention
