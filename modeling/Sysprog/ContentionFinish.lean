import Sysprog.ContentionOrder
import Sysprog.Potential

namespace Sysprog.Contention

open Execution MutualExclusion

/-!
# The lock benchmark comes to an end

Every step uses up some of the work that is left, and only a wakeup without a signal adds
to it.  As somebody can always take a step until `contention` returns, every run that goes
on ends there.
-/

variable {threads : Nat} {reps : Int} {state after : State threads} {thread : Fin threads}

/-! ## The work that is left -/

/-- The most steps a thread has to take; a signal also pays for what `contention` does then. -/
def Position.work (last : Nat) : Position threads → Nat
  | .absent | .lockFirst => 3 * last + 8
  | .lockReady => 3 * last + 7
  | .count => 3 * last + 6
  | .signal => 3 * last + 5
  | .unlockReady => 3 * last + 2
  | .lockStart => 3 * last + 1
  | .unlockStart => 3 * last
  | .loop _ j => 3 * (last - j) + 2
  | .lockNext _ j => 3 * (last - j) + 1
  | .unlockBehind _ j => 3 * (last - j)
  | .unlockLast _ => 1
  | .returned => 0

/-- The most steps `contention` has to take when nobody wakes it again. -/
def Main.work : Main threads → Nat
  | .initMutex index => 7 * threads + 12 + (threads + 1 - index)
  | .initReady => 7 * threads + 11
  | .initStart thread => 4 * threads + 10 + 3 * (threads - thread)
  | .lockStart thread => 4 * threads + 9 + 3 * (threads - thread)
  | .create thread => 4 * threads + 8 + 3 * (threads - thread)
  | .lockReady | .woken => 4 * threads + 9
  | .test => 4 * threads + 8
  | .waiting => 4 * threads + 7
  | .unlockReady => 4 * threads + 6
  | .unlockStart thread => 3 * threads + 5 + (threads - thread)
  | .join thread => threads + 4 + 2 * (threads - thread)
  | .destroyStart thread => threads + 3 + 2 * (threads - thread)
  | .destroyMutex index => 2 + (threads + 1 - index)
  | .destroyReady => 1
  | .returned => 0

/-- All the work that is left. -/
def State.work (reps : Int) (state : State threads) : Nat :=
  state.main.work + ∑ thread, (state.positions thread).work (lastCount threads reps)

/-- What a wakeup without a signal adds: the wakeup, the lock and the test. -/
def gained : Event threads → Nat
  | .spurious => 3
  | _ => 0

/-- Moving one thread changes the sum by what it changes for that thread. -/
theorem sum_work_update
    (positions : Fin threads → Position threads)
    (thread : Fin threads)
    {position : Position threads}
    {last spent : Nat}
    (pays : position.work last + spent ≤ (positions thread).work last) :
    ∑ other, (Function.update positions thread position other).work last + spent ≤
      ∑ other, (positions other).work last := by
  have summed :=
    @sum_of_step _ _ _ (fun other => (positions other).work last)
      (fun other => (Function.update positions thread position other).work last) spent thread none
      (fun other => by
        by_cases same : other = thread
        · subst same
          simpa using pays
        · simp [same])
  simpa using summed

/-! ## Every step pays -/

/-- A thread that goes on pays for its step and for a wakeup. -/
theorem work_moved
    {position : Position threads}
    {spent : Nat}
    (moved : after.positions = Function.update state.positions thread position)
    (pays :
      position.work (lastCount threads reps) + (1 + spent) ≤
        (state.positions thread).work (lastCount threads reps))
    (main : after.main.work ≤ state.main.work + spent) :
    after.work reps + 1 ≤ state.work reps := by
  have summed := sum_work_update state.positions thread pays
  simp only [State.work, moved]
  omega

/-- Every step of a thread uses up some of the work. -/
theorem InStep.thread_pays
    (inStep : InStep reps state)
    (step : contentionThread reps state thread = some after) :
    after.work reps + 1 ≤ state.work reps := by
  have placed := inStep.placed thread
  -- Locking and unlocking do not move `contention`.
  have changes :
      ∀ {name former latter position},
        (state.change name former latter).map (·.move thread position) = some after →
        position.work (lastCount threads reps) + 1 ≤
            (state.positions thread).work (lastCount threads reps) →
        after.work reps + 1 ≤ state.work reps := by
    intro name former latter position changed pays
    obtain ⟨changed, shape, rfl⟩ := Option.map_eq_some_iff.mp changed
    obtain ⟨_, rfl⟩ := change_some shape
    exact @work_moved _ _ _ _ _ _ 0 rfl pays (Nat.le_refl _)
  have moves :
      ∀ {position},
        state.move thread position = after →
        position.work (lastCount threads reps) + 1 ≤
            (state.positions thread).work (lastCount threads reps) →
        after.work reps + 1 ≤ state.work reps := by
    rintro position rfl pays
    exact @work_moved _ _ _ _ _ _ 0 rfl pays (Nat.le_refl _)
  cases here : state.positions thread with
  | absent | returned => simp [contentionThread, here] at step
  | lockFirst | lockReady | unlockReady | lockStart | unlockLast i | lockNext i j =>
      simp only [contentionThread, here] at step
      refine changes step ?_
      rw [here]
      simp only [Position.work]
      omega
  | unlockStart =>
      have atLeast : 1 ≤ lastCount threads reps := Nat.le_max_left _ _
      simp only [contentionThread, here] at step
      refine changes step ?_
      rw [here]
      simp only [Position.work]
      omega
  | count =>
      simp only [contentionThread, here] at step
      obtain rfl := Option.some.inj step
      refine @work_moved _ _ _ _ _ _ 0 rfl ?_ (Nat.le_refl _)
      rw [here]
      split <;> simp only [Position.work] <;> omega
  | signal =>
      simp only [contentionThread, here] at step
      obtain rfl := Option.some.inj step
      have moved : (state.signal.move thread .unlockReady).positions =
          Function.update state.positions thread .unlockReady := by
        unfold State.signal
        split <;> rfl
      refine @work_moved _ _ _ _ _ _ 2 moved ?_ ?_
      · rw [here]
        simp only [Position.work]
        omega
      · unfold State.signal
        split
        · rename_i asleep
          rw [asleep]
          simp only [State.move, State.moveMain, Main.work]
          omega
        · exact Nat.le_add_right _ _
  | loop i j =>
      simp only [contentionThread, here] at step
      refine moves (Option.some.inj step) ?_
      rw [here]
      split <;> simp only [Position.work] <;> omega
  | unlockBehind i j =>
      rw [here] at placed
      obtain ⟨_, below, _⟩ := placed
      simp only [contentionThread, here] at step
      refine changes step ?_
      rw [here]
      simp only [Position.work]
      omega

/-- Every step of `contention` uses up some of the work. -/
theorem Orderly.main_pays
    (orderly : Orderly state)
    (step : contention state = some after) :
    after.work reps + 1 ≤ state.work reps := by
  -- Creating a thread does not change what the thread has to do.
  have sameSum :
      ∑ thread, (after.positions thread).work (lastCount threads reps) =
        ∑ thread, (state.positions thread).work (lastCount threads reps) := by
    rcases main_positions orderly step with same | ⟨thread, absent, created⟩
    · rw [same]
    · refine Finset.sum_congr rfl fun other _ => ?_
      rw [created]
      by_cases same : other = thread
      · rw [same, Function.update_self, absent]
        rfl
      · rw [Function.update_of_ne same]
  suffices main : after.main.work + 1 ≤ state.main.work by
    simp only [State.work, sameSum]
    omega
  have changes :
      ∀ {name former latter main},
        (state.change name former latter).map (·.moveMain main) = some after →
        after.main = main := by
    intro name former latter main changed
    obtain ⟨changed, shape, rfl⟩ := Option.map_eq_some_iff.mp changed
    rfl
  cases here : state.main with
  | waiting | returned => simp [contention, here] at step
  | initReady | create thread =>
      simp only [contention, here] at step
      obtain rfl := Option.some.inj step
      simp only [State.moveMain, Main.work]
      omega
  | initMutex index | initStart thread =>
      simp only [contention, here] at step
      split at step
      all_goals
        obtain rfl := Option.some.inj step
        simp only [State.moveMain, Main.work]
        omega
  | lockStart thread | destroyStart thread =>
      have inside := thread.isLt
      simp only [contention, here] at step
      rw [changes step]
      simp only [Main.work]
      omega
  | lockReady | woken | unlockReady | destroyReady =>
      simp only [contention, here] at step
      rw [changes step]
      simp only [Main.work]
      omega
  | test =>
      simp only [contention, here] at step
      split at step
      · rw [changes step]
        simp only [Main.work]
        omega
      · obtain rfl := Option.some.inj step
        simp only [State.moveMain, Main.work]
        omega
  | unlockStart thread | destroyMutex index =>
      simp only [contention, here] at step
      split at step
      · rw [changes step]
        simp only [Main.work]
        omega
      · obtain rfl := Option.some.inj step
        simp only [State.moveMain, Main.work]
        omega
  | join thread =>
      simp only [contention, here] at step
      split at step
      · split at step
        · obtain rfl := Option.some.inj step
          simp only [State.moveMain, Main.work]
          omega
        · simp at step
      · obtain rfl := Option.some.inj step
        simp only [State.moveMain, Main.work]
        omega

/-- Every event pays, apart from what a wakeup without a signal adds. -/
theorem InStep.pays
    {event : Event threads}
    (orderly : Orderly state)
    (inStep : InStep reps state)
    (step : Step reps state event after) :
    after.work reps + 1 ≤ state.work reps + gained event := by
  cases event with
  | main => exact orderly.main_pays step
  | thread thread => exact inStep.thread_pays step
  | spurious =>
      simp only [Step, perform] at step
      split at step
      · rename_i asleep
        obtain rfl := Option.some.inj step
        simp only [State.work, State.moveMain, asleep, Main.work, gained]
        omega
      · simp at step

/-! ## Until `contention` returns -/

/-- Once all threads have returned, `contention` goes on by itself. -/
theorem Orderly.main_goes_on
    (orderly : Orderly state)
    (returned : ∀ thread, state.positions thread = .returned)
    (running : state.main ≠ .returned) :
    ∃ after, contention state = some after := by
  have mainHolds : ∀ name, state.main.holds name → ∃ unlocked, state.unlock name = some unlocked :=
    fun name holds => orderly.unlock_of_holds (show Holds state .main name from holds)
  have locks :
      ∀ name,
        state.main.inUse name →
        ¬state.main.holds name →
        ∃ locked, state.lock name = some locked := by
    intro name inUse notHeld
    refine orderly.lock_of_free inUse fun party holds => ?_
    cases party with
    | main => exact notHeld holds
    | thread thread =>
        rw [Holds, returned thread] at holds
        exact holds
  have destroys :
      ∀ name,
        state.main.inUse name →
        ¬state.main.holds name →
        ∃ destroyed, state.destroy name = some destroyed := by
    intro name inUse notHeld
    obtain ⟨_, locked⟩ := locks name inUse notHeld
    exact ⟨_, change_eq .destroyed (change_some locked).1⟩
  have created : ∀ thread, state.main.created thread := by
    intro thread
    by_contra missing
    rw [← orderly.created, returned] at missing
    simp at missing
  cases here : state.main with
  | initMutex index | initStart thread =>
      rw [contention, here]
      simp only
      split <;> exact ⟨_, rfl⟩
  | initReady => exact ⟨_, by rw [contention, here]⟩
  | lockStart thread | create thread =>
      have missing := created thread
      rw [here] at missing
      exact (Nat.lt_irrefl _ missing).elim
  | lockReady | woken =>
      obtain ⟨locked, locks⟩ := locks .readyMutex (by simp [here, Main.inUse])
        (by simp [here, Main.holds])
      exact ⟨_, by rw [contention, here]; simp only [locks]; rfl⟩
  | test =>
      obtain ⟨unlocked, unlocks⟩ := mainHolds .readyMutex (by simp [here, Main.holds])
      rw [contention, here]
      simp only [unlocks]
      split <;> exact ⟨_, rfl⟩
  | waiting =>
      rcases orderly.waiting here with fewer | ⟨signaller, signals⟩
      · have all : countedThreads state = Finset.univ := by
          ext thread
          simp [mem_countedThreads, returned, Position.counted]
        rw [orderly.counted, all, Finset.card_univ, Fintype.card_fin] at fewer
        exact (Nat.lt_irrefl _ fewer).elim
      · rw [returned] at signals
        simp at signals
  | unlockReady =>
      obtain ⟨unlocked, unlocks⟩ := mainHolds .readyMutex (by simp [here, Main.holds])
      exact ⟨_, by rw [contention, here]; simp only [unlocks]; rfl⟩
  | unlockStart first =>
      by_cases inside : first < threads
      · obtain ⟨unlocked, unlocks⟩ := mainHolds (.startMutex ⟨first, inside⟩)
          (by simp [here, Main.holds])
        exact ⟨_, by rw [contention, here]; simp only [dif_pos inside, unlocks]; rfl⟩
      · exact ⟨_, by rw [contention, here]; simp only [dif_neg inside]; rfl⟩
  | join first =>
      by_cases inside : first < threads
      · exact ⟨_, by rw [contention, here]; simp only [dif_pos inside, returned, if_true]; rfl⟩
      · exact ⟨_, by rw [contention, here]; simp only [dif_neg inside]; rfl⟩
  | destroyStart last =>
      obtain ⟨destroyed, destroys⟩ := destroys (.startMutex last)
        (by simp [here, Main.inUse]) (by simp [here, Main.holds])
      exact ⟨_, by rw [contention, here]; simp only [destroys]; rfl⟩
  | destroyMutex first =>
      by_cases inside : first < threads + 1
      · obtain ⟨destroyed, destroys⟩ := destroys (.mutexes ⟨first, inside⟩)
          (by simp [here, Main.inUse]) (by simp [here, Main.holds])
        exact ⟨_, by rw [contention, here]; simp only [dif_pos inside, destroys]; rfl⟩
      · exact ⟨_, by rw [contention, here]; simp only [dif_neg inside]; rfl⟩
  | destroyReady =>
      obtain ⟨destroyed, destroys⟩ := destroys .readyMutex
        (by simp [here, Main.inUse]) (by simp [here, Main.holds])
      exact ⟨_, by rw [contention, here]; simp only [destroys]; rfl⟩
  | returned => exact absurd here running

/-- The work there is when `contention` is called. -/
theorem work_initial :
    (State.initial : State threads).work reps =
      8 * threads + 13 + threads * (3 * lastCount threads reps + 8) := by
  have each :
      ∀ thread ∈ Finset.univ,
        ((State.initial : State threads).positions thread).work (lastCount threads reps) =
          3 * lastCount threads reps + 8 :=
    fun _ _ => rfl
  rw [State.work, Finset.sum_const_nat each, Finset.card_univ, Fintype.card_fin]
  simp only [State.initial, Main.work]
  omega

/--
The benchmark ends.  In every interleaving the number of steps is bounded by the numbers of
threads and of rounds, with three more for every wakeup without a signal; until `contention`
returns, somebody can take a step; and when it has returned, all threads have, and no mutex
is in use any more.
-/
theorem contention_finishes
    {events : List (Event threads)}
    (run : Run (Step reps) State.initial events state) :
    events.length ≤
        8 * threads + 13 + threads * (3 * lastCount threads reps + 8) +
          3 * events.count .spurious ∧
      (state.main ≠ .returned → CanStep reps state) ∧
      (state.main = .returned →
        (∀ thread, state.positions thread = .returned) ∧
          ∀ name, state.mutexes name ≠ .unlocked ∧ state.mutexes name ≠ .locked) := by
  have steps : ∀ events : List (Event threads), (events.map fun _ => 1).sum = events.length := by
    intro events
    induction events with
    | nil => rfl
    | cons event rest inductionHypothesis =>
        rw [List.map_cons, List.sum_cons, inductionHypothesis, List.length_cons, Nat.add_comm]
  have wakeups : ∀ events : List (Event threads),
      (events.map gained).sum = 3 * events.count .spurious := by
    intro events
    induction events with
    | nil => rfl
    | cons event rest inductionHypothesis =>
        rw [List.map_cons, List.sum_cons, inductionHypothesis, List.count_cons]
        cases event <;> simp [gained]
        omega
  obtain ⟨⟨orderly, _⟩, paid⟩ :=
    @Run.amortised _ _ (Step reps) State.initial state events
      (fun state => Orderly state ∧ InStep reps state) (State.work reps) (fun _ => 1) gained run
      ⟨orderly_initial, inStep_initial⟩
      (fun kept step =>
        ⟨⟨kept.1.step step, kept.2.step kept.1 step⟩, kept.2.pays kept.1 step⟩)
  rw [steps, wakeups, work_initial] at paid
  refine ⟨by omega, fun running => ?_, fun returned => ⟨fun thread => ?_, fun name => ?_⟩⟩
  · by_cases someone : ∃ thread, state.positions thread ≠ .returned
    · exact orderly.canStep someone
    · exact Or.inl (orderly.main_goes_on (by simpa using someone) running)
  · exact orderly.joined thread (by rw [returned]; trivial)
  · have notInUse : ¬state.main.inUse name := by
      rw [returned]
      cases name <;> exact not_false
    rw [orderly.inUse, not_or] at notInUse
    exact notInUse

/--
Two threads that lock two mutexes each, one of which waits for the other, and a wakeup
without a signal.
-/
def twoThreads : List (Event 2) :=
  let first : Event 2 := .thread ⟨0, Nat.two_pos⟩
  let second : Event 2 := .thread ⟨1, Nat.one_lt_two⟩
  List.replicate 14 .main ++ List.replicate 4 first ++ [second, .spurious] ++
    List.replicate 2 .main ++ List.replicate 4 second ++ List.replicate 6 .main ++
    List.replicate 3 first ++ List.replicate 5 second ++ List.replicate 4 first ++
    List.replicate 2 .main ++ List.replicate 2 second ++ List.replicate 8 .main

theorem contention_finishes_two :
    ∃ state,
      Run (Step 4) State.initial twoThreads state ∧
        twoThreads.length ≤ 60 ∧
        (∀ thread, state.positions thread = .returned) ∧
        ∀ name, state.mutexes name ≠ .unlocked ∧ state.mutexes name ≠ .locked := by
  have computed :
      (twoThreads.foldlM (perform 4) State.initial).map State.main = some .returned := by
    decide +kernel
  obtain ⟨state, computed, returned⟩ := Option.map_eq_some_iff.mp computed
  have run : Run (Step 4) State.initial twoThreads state :=
    Run.of_foldlM (fun performed => performed) computed
  have once : twoThreads.count .spurious = 1 := by decide
  have reps : lastCount 2 4 = 2 := by decide
  obtain ⟨bounded, _, finished⟩ := contention_finishes run
  rw [once, reps] at bounded
  exact ⟨state, run, bounded, finished returned⟩

end Sysprog.Contention
