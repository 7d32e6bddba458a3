import Sysprog.ContentionProgress

namespace Sysprog.Contention

open Execution MutualExclusion

/-!
# The threads go round in step

A thread that goes round the ring waits for the one in front of it, so it never overtakes
it, and the first one in turn waits for the last.  With one mutex more than there are
threads nobody gets more than one mutex ahead of anybody else.
-/

variable {threads : Nat} {reps : Int} {state after : State threads} {thread : Fin threads}

/-- The number of ring mutexes that a thread locks before it returns. -/
def lastCount (threads : Nat) (reps : Int) : Nat :=
  max 1 (threadReps threads reps).toNat

/-- The number of ring mutexes that a thread has locked so far. -/
def Position.locks (last : Nat) : Position threads → Nat
  | .absent | .lockFirst => 0
  | .lockReady | .count | .signal | .unlockReady | .lockStart | .unlockStart => 1
  | .loop _ j | .lockNext _ j => j
  | .unlockBehind _ j => j + 1
  | .unlockLast _ | .returned => last

/-- The number of ring mutexes that one of the threads has locked so far. -/
def State.locks (reps : Int) (state : State threads) (thread : Fin threads) : Nat :=
  (state.positions thread).locks (lastCount threads reps)

/-- The ring mutex that a thread locks at a count. -/
def ringPlace (thread : Fin threads) (count : Nat) : Fin (threads + 1) :=
  ⟨(thread + count - 1) % (threads + 1), Nat.mod_lt _ (Nat.succ_pos _)⟩

/-- Where a thread of the loop stands in the ring. -/
def Position.Placed (reps : Int) (thread : Fin threads) : Position threads → Prop
  | .loop i j => 1 ≤ j ∧ j ≤ lastCount threads reps ∧ i = ringPlace thread j
  | .lockNext i j | .unlockBehind i j =>
      1 ≤ j ∧ j < lastCount threads reps ∧ i = ringPlace thread j
  | .unlockLast i => i = ringPlace thread (lastCount threads reps)
  | _ => True

/-- Among the threads that have begun, nobody is ahead of those in front of it. -/
structure InStep (reps : Int) (state : State threads) : Prop where
  placed : ∀ thread, (state.positions thread).Placed reps thread
  ordered :
    ∀ first second : Fin threads,
      first ≤ second →
      1 ≤ state.locks reps first →
      1 ≤ state.locks reps second →
      state.locks reps first ≤ state.locks reps second ∧
        state.locks reps second ≤ state.locks reps first + 1

/-- The first mutex of a thread. -/
theorem ringPlace_one (thread : Fin threads) : ringPlace thread 1 = thread.castSucc := by
  apply Fin.ext
  simp only [ringPlace, Nat.add_sub_cancel, Fin.val_castSucc]
  exact Nat.mod_eq_of_lt (Nat.lt_succ_of_lt thread.isLt)

/-- The next mutex of a thread. -/
theorem next_ringPlace (thread : Fin threads) {count : Nat} (positive : 1 ≤ count) :
    next (ringPlace thread count) = ringPlace thread (count + 1) := by
  apply Fin.ext
  simp only [next, ringPlace, Nat.mod_add_mod]
  congr 1
  omega

/-- The thread in front locks the next mutex with the same count. -/
theorem ringPlace_front
    {first second : Fin threads}
    (front : second.val = first.val + 1)
    (count : Nat)
    (positive : 1 ≤ count) :
    ringPlace second count = ringPlace first (count + 1) := by
  apply Fin.ext
  simp only [ringPlace]
  congr 1
  omega

/-- The mutex behind the last thread's is the first thread's, one round earlier. -/
theorem ringPlace_wraps
    {first last : Fin threads}
    (atStart : first.val = 0)
    (atEnd : last.val + 1 = threads)
    {count : Nat}
    (positive : 1 ≤ count) :
    ringPlace last (count + 2) = ringPlace first count := by
  apply Fin.ext
  simp only [ringPlace, atStart]
  rw [show last.val + (count + 2) - 1 = 0 + count - 1 + (threads + 1) by omega,
    Nat.add_mod_right]

/-- A thread that has locked more than one ring mutex has left the line-up. -/
theorem Position.started_of_locks
    {position : Position threads}
    {last : Nat}
    (several : 1 < position.locks last) :
    position.started = true := by
  cases position <;> simp_all [Position.locks, Position.started]

/-- Once somebody has left the line-up, everybody is counted. -/
theorem Orderly.all_counted
    (orderly : Orderly state)
    (started : (state.positions thread).started = true)
    (other : Fin threads) :
    (state.positions other).counted = true := by
  have ready : state.main.ready = true := by
    have released := orderly.started thread started
    cases here : state.main <;> simp_all [Main.ready, Main.released]
  have all := orderly.ready ready
  by_contra uncounted
  have fewer := orderly.readyCount_lt (Bool.eq_false_iff.mpr uncounted)
  omega

/-- A thread that is counted has locked a ring mutex. -/
theorem Position.locks_of_counted
    {position : Position threads}
    (placed : position.Placed reps thread)
    (counted : position.counted = true) :
    1 ≤ position.locks (lastCount threads reps) := by
  cases position <;> simp_all [Position.locks, Position.counted, Position.Placed, lastCount]

/-- A thread that runs holds the mutex it locked last. -/
theorem Position.holds_last
    {position : Position threads}
    (placed : position.Placed reps thread)
    (begun : 1 ≤ position.locks (lastCount threads reps))
    (running : position ≠ .returned) :
    position.holds thread (.mutexes (ringPlace thread (position.locks (lastCount threads reps)))) := by
  cases position with
  | absent | lockFirst => simp [Position.locks] at begun
  | lockReady | lockStart => simp [Position.holds, Position.locks, ringPlace_one]
  | count | signal | unlockReady | unlockStart =>
      simp [Position.holds, Position.locks, ringPlace_one]
  | loop i j | lockNext i j =>
      obtain ⟨_, _, rfl⟩ := placed
      rfl
  | unlockBehind i j =>
      obtain ⟨positive, _, rfl⟩ := placed
      exact Or.inr (congrArg Name.mutexes (next_ringPlace thread positive).symm)
  | unlockLast i =>
      obtain rfl := placed
      rfl
  | returned => exact absurd rfl running

/-! ## Steps -/

/-- What a step of a thread does to its place and to its count. -/
def Goes
    (reps : Int)
    (state : State threads)
    (thread : Fin threads)
    (position : Position threads) : Prop :=
  position.locks (lastCount threads reps) = state.locks reps thread ∨
    (state.positions thread = .lockFirst ∧ position.locks (lastCount threads reps) = 1) ∨
    ∃ i j,
      state.positions thread = .lockNext i j ∧
        position = .unlockBehind i j ∧
        state.mutexes (.mutexes (next i)) = .unlocked

/-- A step moves one thread, and its count grows only where it locks a ring mutex. -/
theorem InStep.thread_goes
    (inStep : InStep reps state)
    (step : contentionThread reps state thread = some after) :
    ∃ position,
      after.positions = Function.update state.positions thread position ∧
        position.Placed reps thread ∧
        Goes reps state thread position := by
  have placed := inStep.placed thread
  cases here : state.positions thread with
  | absent => simp [contentionThread, here] at step
  | lockFirst =>
      simp only [contentionThread, here] at step
      obtain ⟨locked, locks, rfl⟩ := Option.map_eq_some_iff.mp step
      obtain ⟨_, rfl⟩ := change_some locks
      exact ⟨.lockReady, rfl, trivial, Or.inr (Or.inl ⟨here, rfl⟩)⟩
  | lockReady =>
      simp only [contentionThread, here] at step
      obtain ⟨locked, locks, rfl⟩ := Option.map_eq_some_iff.mp step
      obtain ⟨_, rfl⟩ := change_some locks
      exact ⟨.count, rfl, trivial, Or.inl (by rw [State.locks, here]; rfl)⟩
  | count =>
      simp only [contentionThread, here] at step
      obtain rfl := Option.some.inj step
      refine ⟨_, rfl, ?_, Or.inl ?_⟩
      · split <;> trivial
      · rw [State.locks, here]
        split <;> rfl
  | signal =>
      simp only [contentionThread, here] at step
      obtain rfl := Option.some.inj step
      refine ⟨.unlockReady, ?_, trivial, Or.inl (by rw [State.locks, here]; rfl)⟩
      unfold State.signal
      split <;> rfl
  | unlockReady =>
      simp only [contentionThread, here] at step
      obtain ⟨unlocked, unlocks, rfl⟩ := Option.map_eq_some_iff.mp step
      obtain ⟨_, rfl⟩ := change_some unlocks
      exact ⟨.lockStart, rfl, trivial, Or.inl (by rw [State.locks, here]; rfl)⟩
  | lockStart =>
      simp only [contentionThread, here] at step
      obtain ⟨locked, locks, rfl⟩ := Option.map_eq_some_iff.mp step
      obtain ⟨_, rfl⟩ := change_some locks
      exact ⟨.unlockStart, rfl, trivial, Or.inl (by rw [State.locks, here]; rfl)⟩
  | unlockStart =>
      simp only [contentionThread, here] at step
      obtain ⟨unlocked, unlocks, rfl⟩ := Option.map_eq_some_iff.mp step
      obtain ⟨_, rfl⟩ := change_some unlocks
      refine ⟨.loop thread.castSucc 1, rfl, ?_, Or.inl (by rw [State.locks, here]; rfl)⟩
      exact ⟨Nat.le_refl 1, Nat.le_max_left _ _, (ringPlace_one thread).symm⟩
  | loop i j =>
      rw [here] at placed
      obtain ⟨positive, atMost, rfl⟩ := placed
      simp only [contentionThread, here] at step
      obtain rfl := Option.some.inj step
      by_cases goesOn : (j : Int) < threadReps threads reps
      · rw [if_pos goesOn]
        refine ⟨_, rfl, ⟨positive, ?_, rfl⟩, Or.inl (by rw [State.locks, here]; rfl)⟩
        simp only [lastCount]
        omega
      · rw [if_neg goesOn]
        have last : j = lastCount threads reps := by
          simp only [lastCount] at atMost ⊢
          omega
        refine ⟨_, rfl, ?_, Or.inl (by rw [State.locks, here]; exact last.symm)⟩
        rw [Position.Placed, ← last]
  | lockNext i j =>
      rw [here] at placed
      simp only [contentionThread, here] at step
      obtain ⟨locked, locks, rfl⟩ := Option.map_eq_some_iff.mp step
      obtain ⟨free, rfl⟩ := change_some locks
      exact ⟨.unlockBehind i j, rfl, placed, Or.inr (Or.inr ⟨i, j, here, rfl, free⟩)⟩
  | unlockBehind i j =>
      rw [here] at placed
      obtain ⟨positive, below, rfl⟩ := placed
      simp only [contentionThread, here] at step
      obtain ⟨unlocked, unlocks, rfl⟩ := Option.map_eq_some_iff.mp step
      obtain ⟨_, rfl⟩ := change_some unlocks
      refine ⟨.loop _ (j + 1), rfl, ⟨by omega, below, next_ringPlace thread positive⟩,
        Or.inl (by rw [State.locks, here]; rfl)⟩
  | unlockLast i =>
      simp only [contentionThread, here] at step
      obtain ⟨unlocked, unlocks, rfl⟩ := Option.map_eq_some_iff.mp step
      obtain ⟨_, rfl⟩ := change_some unlocks
      exact ⟨.returned, rfl, trivial, Or.inl (by rw [State.locks, here]; rfl)⟩
  | returned => simp [contentionThread, here] at step

/-- Whoever holds the mutex that another thread takes next has not locked it with this count. -/
theorem InStep.ahead_of_free
    (orderly : Orderly state)
    (inStep : InStep reps state)
    {other : Fin threads}
    {count : Nat}
    (free : state.mutexes (.mutexes (ringPlace other count)) = .unlocked)
    (begun : 1 ≤ state.locks reps other)
    (below : count < lastCount threads reps) :
    state.locks reps other ≠ count := by
  rintro rfl
  have running : state.positions other ≠ .returned := by
    intro returned
    rw [State.locks, returned] at below
    exact absurd below (Nat.lt_irrefl _)
  have holds := Position.holds_last (inStep.placed other) begun running
  have locked : Taken state _ :=
    orderly.exclusive.taken_of_holds (show Holds state (.thread other) _ from holds)
  change state.mutexes (.mutexes (ringPlace other (state.locks reps other))) = .locked at locked
  rw [free] at locked
  simp at locked

/-- While a thread waits for its first mutex nobody goes round. -/
theorem Orderly.locks_le_one
    (orderly : Orderly state)
    (waits : (state.positions thread).counted = false)
    (other : Fin threads) :
    state.locks reps other ≤ 1 := by
  by_contra several
  have started := Position.started_of_locks (Nat.lt_of_not_le several)
  have counted := orderly.all_counted started thread
  rw [waits] at counted
  simp at counted

/-- The next mutex of a thread is free only when nobody in front has the same count. -/
theorem InStep.lockNext_order
    (orderly : Orderly state)
    (inStep : InStep reps state)
    {i : Fin (threads + 1)}
    {j : Nat}
    (here : state.positions thread = .lockNext i j)
    (free : state.mutexes (.mutexes (next i)) = .unlocked) :
    (∀ other, 1 ≤ state.locks reps other) ∧
      (∀ other, thread < other → j + 1 ≤ state.locks reps other) ∧
      ∀ other, other ≤ thread → j ≤ state.locks reps other := by
  have placed := inStep.placed thread
  rw [here] at placed
  obtain ⟨positive, below, rfl⟩ := placed
  rw [next_ringPlace thread positive] at free
  have own : state.locks reps thread = j := by
    rw [State.locks, here]
    rfl
  have begun : ∀ other, 1 ≤ state.locks reps other := by
    intro other
    have counted := orderly.all_counted (show (state.positions thread).started = true by
      rw [here]; rfl) other
    exact Position.locks_of_counted (inStep.placed other) counted
  have inFront : ∀ other, thread < other → j + 1 ≤ state.locks reps other := by
    intro other behind
    have inside : thread.val + 1 < threads := Nat.lt_of_le_of_lt behind other.isLt
    have notSame :=
      @InStep.ahead_of_free _ _ _ orderly inStep ⟨thread.val + 1, inside⟩ _
        (by rw [ringPlace_front rfl j positive]; exact free) (begun _) below
    have neighbour :=
      (inStep.ordered thread ⟨thread.val + 1, inside⟩
        (Nat.le_succ thread.val) (begun _) (begun _)).1
    have onward :=
      (inStep.ordered ⟨thread.val + 1, inside⟩ other behind (begun _) (begun _)).1
    omega
  refine ⟨begun, inFront, fun other upTo => ?_⟩
  have upper := (inStep.ordered other thread upTo (begun _) (begun _)).2
  by_cases inside : thread.val + 1 < threads
  · -- The thread in front is ahead, but by no more than one of this one.
    have ahead := inFront ⟨thread.val + 1, inside⟩ (Nat.lt_succ_self thread.val)
    have within :=
      (inStep.ordered other ⟨thread.val + 1, inside⟩
        (Nat.le_trans upTo (Nat.le_succ thread.val)) (begun _) (begun _)).2
    omega
  · -- The last thread would need the mutex that the first one still has.
    have some : 0 < threads := Nat.lt_of_le_of_lt (Nat.zero_le _) thread.isLt
    have first := (inStep.ordered ⟨0, some⟩ other (Nat.zero_le _) (begun _) (begun _)).1
    by_contra behind
    have lag : state.locks reps ⟨0, some⟩ + 1 = j := by
      have bound := (inStep.ordered ⟨0, some⟩ thread (Nat.zero_le _) (begun _) (begun _)).2
      omega
    refine @InStep.ahead_of_free _ _ _ orderly inStep ⟨0, some⟩ _ ?_ (begun _) ?_ rfl
    · have atEnd : thread.val + 1 = threads := by
        have bound := thread.isLt
        omega
      have wraps := @ringPlace_wraps _ ⟨0, some⟩ thread rfl atEnd _ (begun ⟨0, some⟩)
      rw [← wraps, show state.locks reps ⟨0, some⟩ + 2 = j + 1 by omega]
      exact free
    · omega

/-- Steps that leave the positions alone. -/
theorem InStep.congr
    (inStep : InStep reps state)
    (same : after.positions = state.positions) :
    InStep reps after := by
  refine ⟨?_, ?_⟩
  · rw [same]
    exact inStep.placed
  · simp only [State.locks, same]
    exact inStep.ordered

/-- Every step of a thread keeps the order. -/
theorem InStep.threadStep
    (orderly : Orderly state)
    (inStep : InStep reps state)
    (step : contentionThread reps state thread = some after) :
    InStep reps after := by
  obtain ⟨position, moved, placed, goes⟩ := inStep.thread_goes step
  have others : ∀ other, other ≠ thread → after.locks reps other = state.locks reps other := by
    intro other different
    simp only [State.locks, moved, Function.update_of_ne different]
  have own : after.locks reps thread = position.locks (lastCount threads reps) := by
    simp only [State.locks, moved, Function.update_self]
  refine ⟨?_, ?_⟩
  · intro other
    rw [moved]
    by_cases same : other = thread
    · subst same
      rw [Function.update_self]
      exact placed
    · rw [Function.update_of_ne same]
      exact inStep.placed other
  rcases goes with same | ⟨here, one⟩ | ⟨i, j, here, rfl, free⟩
  · -- No ring mutex was locked.
    have counts : ∀ other, after.locks reps other = state.locks reps other := by
      intro other
      by_cases isThread : other = thread
      · rw [isThread, own, same]
      · exact others other isThread
    simp only [counts]
    exact inStep.ordered
  · -- The first mutex: everybody else has at most that one.
    have few : ∀ other, after.locks reps other ≤ 1 := by
      intro other
      by_cases isThread : other = thread
      · rw [isThread, own, one]
      · rw [others other isThread]
        exact orderly.locks_le_one (show (state.positions thread).counted = false by
          rw [here]; rfl) other
    intro first second _ firstBegun secondBegun
    have firstFew := few first
    have secondFew := few second
    omega
  · obtain ⟨begun, inFront, behind⟩ := inStep.lockNext_order orderly here free
    have before : state.locks reps thread = j := by
      rw [State.locks, here]
      rfl
    have now : after.locks reps thread = j + 1 := own
    intro first second upTo _ _
    have old := inStep.ordered first second upTo (begun first) (begun second)
    by_cases firstMoves : first = thread
    · by_cases secondMoves : second = thread
      · rw [firstMoves, secondMoves]
        omega
      · have ahead := inFront second (lt_of_le_of_ne (firstMoves ▸ upTo) (Ne.symm secondMoves))
        rw [firstMoves, before] at old
        rw [firstMoves, now, others second secondMoves]
        omega
    · by_cases secondMoves : second = thread
      · have least := behind first (secondMoves ▸ upTo)
        rw [secondMoves, before] at old
        rw [secondMoves, now, others first firstMoves]
        omega
      · rw [others first firstMoves, others second secondMoves]
        exact old

/-- The steps of `contention` create threads and leave the others where they are. -/
theorem main_positions
    (orderly : Orderly state)
    (step : contention state = some after) :
    after.positions = state.positions ∨
      ∃ thread,
        state.positions thread = .absent ∧
          after.positions = Function.update state.positions thread .lockFirst := by
  -- Locking, unlocking and destroying a mutex move no thread.
  have changes :
      ∀ {name former latter main},
        (state.change name former latter).map (·.moveMain main) = some after →
        after.positions = state.positions := by
    intro name former latter main changed
    obtain ⟨changed, shape, rfl⟩ := Option.map_eq_some_iff.mp changed
    obtain ⟨_, rfl⟩ := change_some shape
    rfl
  cases here : state.main with
  | create thread =>
      simp only [contention, here] at step
      obtain rfl := Option.some.inj step
      refine Or.inr ⟨thread, ?_, rfl⟩
      rw [orderly.created, here]
      simp [Main.created]
  | initMutex index | initStart thread =>
      left
      simp only [contention, here] at step
      split at step <;> exact Option.some.inj step ▸ rfl
  | initReady =>
      left
      simp only [contention, here] at step
      exact Option.some.inj step ▸ rfl
  | lockStart thread | lockReady | woken | unlockReady | destroyStart thread | destroyReady =>
      left
      simp only [contention, here] at step
      exact changes step
  | test =>
      left
      simp only [contention, here] at step
      split at step
      · exact changes step
      · exact Option.some.inj step ▸ rfl
  | unlockStart thread | destroyMutex index =>
      left
      simp only [contention, here] at step
      split at step
      · exact changes step
      · exact Option.some.inj step ▸ rfl
  | join thread =>
      left
      simp only [contention, here] at step
      split at step
      · split at step
        · exact Option.some.inj step ▸ rfl
        · simp at step
      · exact Option.some.inj step ▸ rfl
  | waiting | returned => simp [contention, here] at step

/-- Every event keeps the order. -/
theorem InStep.step
    {event : Event threads}
    (orderly : Orderly state)
    (inStep : InStep reps state)
    (step : Step reps state event after) :
    InStep reps after := by
  cases event with
  | main =>
      rcases main_positions orderly step with same | ⟨thread, absent, created⟩
      · exact inStep.congr same
      · have counts : ∀ other, after.locks reps other = state.locks reps other := by
          intro other
          simp only [State.locks, created]
          by_cases same : other = thread
          · rw [same, Function.update_self, absent]
            rfl
          · rw [Function.update_of_ne same]
        refine ⟨fun other => ?_, ?_⟩
        · rw [created]
          by_cases same : other = thread
          · rw [same, Function.update_self]
            trivial
          · rw [Function.update_of_ne same]
            exact inStep.placed other
        · simp only [counts]
          exact inStep.ordered
  | thread thread => exact inStep.threadStep orderly step
  | spurious =>
      simp only [Step, perform] at step
      split at step
      · exact inStep.congr (Option.some.inj step ▸ rfl)
      · simp at step

/-- Nobody is out of step before anybody is created. -/
theorem inStep_initial : InStep reps (State.initial : State threads) where
  placed := fun _ => trivial
  ordered := by
    intro first second _ begun
    simp [State.locks, State.initial, Position.locks] at begun

/-- What holds in every reachable state. -/
theorem inStep_reachable
    (reachable : Reachable (Step reps) State.initial state) :
    Orderly state ∧ InStep reps state := by
  obtain ⟨events, run⟩ := reachable
  induction run with
  | stop => exact ⟨orderly_initial, inStep_initial⟩
  | extend earlier last inductionHypothesis =>
      obtain ⟨orderly, inStep⟩ := inductionHypothesis
      exact ⟨orderly.step last, inStep.step orderly last⟩

/--
In every interleaving, the numbers of ring mutexes that any two threads have locked differ
by at most one.  Once a thread goes round, no thread has locked more of them than one with
a higher index.  Every thread that runs holds the mutex that it has locked last.
-/
theorem threads_in_step
    (reachable : Reachable (Step reps) State.initial state) :
    (∀ first second, state.locks reps first ≤ state.locks reps second + 1) ∧
      ((∃ thread, 1 < state.locks reps thread) →
        ∀ first second, first ≤ second → state.locks reps first ≤ state.locks reps second) ∧
      ∀ thread,
        0 < state.locks reps thread →
        state.positions thread ≠ .returned →
        Holds state (.thread thread) (.mutexes (ringPlace thread (state.locks reps thread))) := by
  obtain ⟨orderly, inStep⟩ := inStep_reachable reachable
  have begun :
      (∃ thread, 1 < state.locks reps thread) → ∀ thread, 1 ≤ state.locks reps thread := by
    rintro ⟨going, several⟩ thread
    have counted := orderly.all_counted (Position.started_of_locks several) thread
    exact Position.locks_of_counted (inStep.placed thread) counted
  refine ⟨fun first second => ?_, ?_, ?_⟩
  · by_cases few : state.locks reps first ≤ 1
    · omega
    · have all := begun ⟨first, Nat.lt_of_not_le few⟩
      rcases Nat.le_total first second with upTo | upTo
      · have between := inStep.ordered first second upTo (all first) (all second)
        omega
      · exact (inStep.ordered second first upTo (all second) (all first)).2
  · intro going first second upTo
    exact (inStep.ordered first second upTo (begun going first) (begun going second)).1
  · intro thread positive running
    exact Position.holds_last (inStep.placed thread) positive running

/-- Two threads, of which the second one has gone on to its next mutex. -/
theorem threads_in_step_two :
    ∃ state : State 2,
      state.locks 8 0 = 1 ∧
        state.locks 8 1 = 2 ∧
        Holds state (.thread 1) (.mutexes (ringPlace 1 2)) := by
  have run : ∃ (events : List (Event 2)) (state : State 2),
      events.foldlM (perform 8) State.initial = some state ∧
        state.positions 0 = .lockStart ∧ state.positions 1 = .unlockBehind 1 1 :=
    ⟨List.replicate 14 .main ++ List.replicate 4 (.thread 0) ++ List.replicate 5 (.thread 1) ++
      List.replicate 5 .main ++ List.replicate 4 (.thread 1), _, rfl, rfl, rfl⟩
  obtain ⟨events, state, computed, first, second⟩ := run
  have reachable : Reachable (Step 8) State.initial state :=
    ⟨events, Run.of_foldlM (fun performed => performed) computed⟩
  have twice : state.locks 8 1 = 2 := by rw [State.locks, second]; rfl
  refine ⟨state, by rw [State.locks, first]; rfl, twice, ?_⟩
  have holds := (threads_in_step reachable).2.2 1 (by rw [twice]; decide) (by rw [second]; simp)
  rw [twice] at holds
  exact holds

end Sysprog.Contention
