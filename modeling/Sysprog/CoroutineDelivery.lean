import Mathlib.Tactic.Common
import Sysprog.CoroutineModel

namespace Sysprog.Coroutine

open FuelLoop

/-!
# What the coroutines deliver

Producer and consumer move one index, so the consumer reads where the producer stopped.
The `&` of `driver_thread` is zero for no pair of answers, so the driver is done when
each of the two has been resumed once.  What the program delivers is therefore decided by
one uninterrupted run of `producer` and one of `consumer`.
-/

/-! ## One round of the producer -/

/-- The state when `producer` has made `count` items and nothing else has run. -/
structure Producing (bufsize count : Nat) (state : State) : Prop where
  full : state.full + count = initSem bufsize
  empty : state.empty = count
  item : state.item = count
  produced : state.produced = count
  bufptr : state.bufptr = count % bufsize
  buffer : ∀ place, state.buffer place = if place < count then place else 0
  crProducer : state.crProducer = asyncInit
  crConsumer : state.crConsumer = asyncInit
  producedItems : producedItems state.output = List.range count
  consumedItems : consumedItems state.output = []

/-- A buffer counts as large as it is, or smaller. -/
theorem initSem_le (bufsize : Nat) : initSem bufsize ≤ bufsize :=
  Nat.mod_le bufsize (2 ^ 32)

/-- One more item, as long as the counters are in range. -/
theorem Producing.body
    {bufsize count : Nat}
    {state : State}
    (producing : Producing bufsize count state)
    (room : state.full > 0)
    (inRange : count + 1 < 2 ^ 31) :
    ∃ next,
      producerBody bufsize { state with full := state.full - 1 } = some next ∧
      Producing bufsize (count + 1) next := by
  have countRoom := producing.full
  have countPlace : count < bufsize := by
    have := initSem_le bufsize
    omega
  have place : state.bufptr = count := by
    rw [producing.bufptr, Nat.mod_eq_of_lt countPlace]
  have signalled : (count + 1) % 2 ^ 32 = count + 1 :=
    Nat.mod_eq_of_lt (by omega)
  refine ⟨_, by
    simp only [producerBody, produceItem, addToBuffer, increment, State.print, place,
      producing.item, producing.produced, inRange, if_true, Option.bind_eq_bind,
      Option.bind_some, pure]; rfl, ?_⟩
  exact {
    full := by simp only; omega
    empty := by simp only [signalSem, producing.empty, signalled]
    item := rfl
    produced := rfl
    bufptr := rfl
    buffer := by
      intro other
      by_cases same : other = count
      · simp [same]
      · simp only [ne_eq, same, not_false_eq_true, Function.update_of_ne, producing.buffer]
        split <;> split <;> omega
    crProducer := producing.crProducer
    crConsumer := producing.crConsumer
    producedItems := by
      have before := producing.producedItems
      simp only [Coroutine.producedItems] at before ⊢
      simp [before, List.range_succ]
    consumedItems := by
      have before := producing.consumedItems
      simp only [Coroutine.consumedItems] at before ⊢
      simp [before] }

/-- A counter that reaches the end of its range makes the round undefined. -/
theorem Producing.body_undefined
    {bufsize count : Nat}
    {state : State}
    (producing : Producing bufsize count state)
    (outOfRange : ¬ count + 1 < 2 ^ 31) :
    producerBody bufsize { state with full := state.full - 1 } = none := by
  simp only [producerBody, produceItem, increment, State.print, producing.item, outOfRange,
    if_false, Option.bind_eq_bind, Option.bind_none]

/-! ## The producer -/

/-- What `producer` may answer. -/
def ProducerAnswer (kcont : Async) : Prop :=
  kcont = asyncDone ∨ kcont = producerLine

/-- What one run of `producer` comes to, when it can make `total` items. -/
def Produced (bufsize total : Nat) (returned : Returned) : Prop :=
  match returned with
  | none => 2 ^ 31 ≤ total
  | some (kcont, state) =>
      ProducerAnswer kcont ∧ Producing bufsize total state ∧ total < 2 ^ 31

/-- `producer` at its `await_sem`, with items still to make and room for `bound` of them. -/
def ProducerWaiting (numItems bufsize bound : Nat) (state : State) : Prop :=
  ∃ count,
    Producing bufsize count state ∧ count < 2 ^ 31 ∧ count < numItems ∧ state.full = bound

/-- The rounds of `producer`: each makes one item, until all are made or there is no room. -/
theorem producerRound_ok
    {numItems bufsize bound : Nat}
    {state : State}
    (waiting : ProducerWaiting numItems bufsize bound state) :
    RoundOk
      (ProducerWaiting numItems bufsize)
      (Produced bufsize (min numItems (initSem bufsize)))
      bound
      (producerRound numItems bufsize state) := by
  obtain ⟨count, producing, inRange, more, rfl⟩ := waiting
  have countRoom := producing.full
  simp only [producerRound]
  by_cases room : state.full > 0
  · rw [if_pos room]
    by_cases nextInRange : count + 1 < 2 ^ 31
    · obtain ⟨next, made, nextProducing⟩ := producing.body room nextInRange
      have nextRoom := nextProducing.full
      simp only [made, nextProducing.produced]
      by_cases goOn : count + 1 < numItems
      · rw [if_pos goOn]
        exact ⟨next.full, by omega, count + 1, nextProducing, nextInRange, goOn, rfl⟩
      · rw [if_neg goOn]
        have all : min numItems (initSem bufsize) = count + 1 := by
          omega
        rw [all]
        exact ⟨Or.inl rfl, nextProducing, nextInRange⟩
    · rw [producing.body_undefined nextInRange]
      show 2 ^ 31 ≤ min numItems (initSem bufsize)
      omega
  · rw [if_neg room]
    have all : min numItems (initSem bufsize) = count := by
      omega
    rw [all]
    exact ⟨Or.inr rfl, producing, inRange⟩

/-- A run of `producer` from its start makes as many items as there is room for. -/
theorem Producing.producer
    {bufsize : Nat}
    {state : State}
    (producing : Producing bufsize 0 state)
    (numItems : Nat) :
    Produced bufsize (min numItems (initSem bufsize))
      (producer numItems bufsize state.crProducer state) := by
  have started : Producing bufsize 0 { state with produced := 0 } :=
    { producing with produced := rfl }
  rw [producing.crProducer, Coroutine.producer, if_pos rfl]
  by_cases more : 0 < numItems
  · simp only [more, if_true, resumeProducer]
    obtain ⟨returned, ran, outcome⟩ :=
      loop_correct
        (ProducerWaiting numItems bufsize) _
        (fun _ _ => producerRound_ok)
        ⟨0, started, by omega, more, rfl⟩
        (Nat.lt_succ_self state.full)
    rw [ran]
    exact outcome
  · have none : numItems = 0 := by
      omega
    subst none
    simp only [Nat.lt_irrefl, if_false, Nat.zero_min]
    exact ⟨Or.inl rfl, started, by omega⟩

/-! ## One round of the consumer -/

/-- What a buffer of `bufsize` holds at `place` when `count` items were put there. -/
def placed (bufsize count place : Nat) : Nat :=
  if place % bufsize < count then place % bufsize else 0

/-- The state when `consumer` took `taken` of the `count` items `producer` had made. -/
structure Consuming (bufsize count taken : Nat) (state : State) : Prop where
  empty : state.empty + taken = count
  consumed : state.consumed = taken
  bufptr : state.bufptr = (count + taken) % bufsize
  buffer : ∀ place, state.buffer place = if place < count then place else 0
  producedItems : producedItems state.output = List.range count
  consumedItems :
    consumedItems state.output =
      (List.range taken).map fun index => placed bufsize count (count + index)

/-- One more item, as long as the counters are in range. -/
theorem Consuming.body
    {bufsize count taken : Nat}
    {state : State}
    (consuming : Consuming bufsize count taken state)
    (room : state.empty > 0)
    (inRange : count < 2 ^ 31)
    (placeInRange : (count + taken) % bufsize + 1 < 2 ^ 31) :
    ∃ next,
      consumerBody bufsize { state with empty := state.empty - 1 } = some next ∧
      Consuming bufsize count (taken + 1) next := by
  have takenRoom := consuming.empty
  have nextInRange : taken + 1 < 2 ^ 31 := by
    omega
  refine ⟨_, by
    simp only [consumerBody, getFromBuffer, consumeItem, increment, State.print,
      consuming.bufptr, consuming.consumed, placeInRange, nextInRange, if_true,
      Option.bind_eq_bind, Option.bind_some, pure]; rfl, ?_⟩
  exact {
    empty := by simp only; omega
    consumed := rfl
    bufptr := by simp only [Nat.mod_add_mod, Nat.add_assoc]
    buffer := consuming.buffer
    producedItems := by
      have before := consuming.producedItems
      simp only [Coroutine.producedItems] at before ⊢
      simp [before]
    consumedItems := by
      have before := consuming.consumedItems
      simp only [Coroutine.consumedItems] at before ⊢
      simp [before, List.range_succ, placed, consuming.buffer] }

/-- An index that reaches the end of its range makes the round undefined. -/
theorem Consuming.body_undefined
    {bufsize count taken : Nat}
    {state : State}
    (consuming : Consuming bufsize count taken state)
    (outOfRange : ¬ (count + taken) % bufsize + 1 < 2 ^ 31) :
    consumerBody bufsize { state with empty := state.empty - 1 } = none := by
  simp only [consumerBody, getFromBuffer, increment, State.print, consuming.bufptr, outOfRange,
    if_false, Option.bind_eq_bind, Option.bind_none]

/-! ## The consumer -/

/-- What `consumer` may answer. -/
def ConsumerAnswer (kcont : Async) : Prop :=
  kcont = asyncDone ∨ kcont = consumerLine

/-- What one run of `consumer` comes to, with `count` items made. -/
def Consumed (bufsize count : Nat) (returned : Returned) : Prop :=
  match returned with
  | none => ∃ taken, taken < count ∧ 2 ^ 31 ≤ (count + taken) % bufsize + 1
  | some (kcont, state) => ConsumerAnswer kcont ∧ Consuming bufsize count count state

/-- `consumer` at its `await_sem`, with `bound` of `count` items to take. -/
def ConsumerWaiting (numItems bufsize count bound : Nat) (state : State) : Prop :=
  ∃ taken, Consuming bufsize count taken state ∧ taken < numItems ∧ state.empty = bound

/-- The rounds of `consumer`: each takes one item, until all that were made are taken. -/
theorem consumerRound_ok
    {numItems bufsize count bound : Nat}
    {state : State}
    (inRange : count < 2 ^ 31)
    (made : count ≤ numItems)
    (waiting : ConsumerWaiting numItems bufsize count bound state) :
    RoundOk
      (ConsumerWaiting numItems bufsize count)
      (Consumed bufsize count)
      bound
      (consumerRound numItems bufsize state) := by
  obtain ⟨taken, consuming, more, rfl⟩ := waiting
  have takenRoom := consuming.empty
  simp only [consumerRound]
  by_cases room : state.empty > 0
  · rw [if_pos room]
    by_cases placeInRange : (count + taken) % bufsize + 1 < 2 ^ 31
    · obtain ⟨next, took, nextConsuming⟩ := consuming.body room inRange placeInRange
      have nextRoom := nextConsuming.empty
      simp only [took, nextConsuming.consumed]
      by_cases goOn : taken + 1 < numItems
      · rw [if_pos goOn]
        exact ⟨next.empty, by omega, taken + 1, nextConsuming, goOn, rfl⟩
      · rw [if_neg goOn]
        have all : taken + 1 = count := by
          omega
        exact ⟨Or.inl rfl, all ▸ nextConsuming⟩
    · rw [consuming.body_undefined placeInRange]
      exact ⟨taken, by omega, by omega⟩
  · rw [if_neg room]
    have all : taken = count := by
      omega
    exact ⟨Or.inr rfl, all ▸ consuming⟩

/-- A run of `consumer` from its start takes every item that was made. -/
theorem Producing.consumer
    {bufsize count : Nat}
    {state : State}
    (producing : Producing bufsize count state)
    (numItems : Nat)
    (inRange : count < 2 ^ 31)
    (made : count ≤ numItems) :
    Consumed bufsize count (consumer numItems bufsize state.crConsumer state) := by
  have started : Consuming bufsize count 0 { state with consumed := 0 } := {
    empty := producing.empty
    consumed := rfl
    bufptr := producing.bufptr
    buffer := producing.buffer
    producedItems := producing.producedItems
    consumedItems := producing.consumedItems }
  rw [producing.crConsumer, Coroutine.consumer, if_pos rfl]
  by_cases more : 0 < numItems
  · simp only [more, if_true, resumeConsumer]
    obtain ⟨returned, ran, outcome⟩ :=
      loop_correct
        (ConsumerWaiting numItems bufsize count) _
        (fun _ _ => consumerRound_ok inRange made)
        ⟨0, started, more, rfl⟩
        (Nat.lt_succ_self state.empty)
    rw [ran]
    exact outcome
  · have none : count = 0 := by
      omega
    subst none
    simp only [more, if_false]
    exact ⟨Or.inl rfl, started⟩

/-! ## Both under the driver -/

/-- `driver_thread` behind its two `async_init`. -/
def State.started (bufsize : Nat) : State :=
  { State.initial with
    empty := initSem 0
    full := initSem bufsize
    crProducer := asyncInit
    crConsumer := asyncInit }

/-- Nothing has been made when the driver starts. -/
theorem started_producing (bufsize : Nat) : Producing bufsize 0 (State.started bufsize) where
  full := rfl
  empty := rfl
  item := rfl
  produced := rfl
  bufptr := (Nat.zero_mod bufsize).symm
  buffer := by intro place; simp [State.started, State.initial]
  crProducer := rfl
  crConsumer := rfl
  producedItems := rfl
  consumedItems := rfl

/-- No two answers have a zero conjunction, so the `await` of the driver never waits. -/
theorem conjunction_nonzero
    {former latter : Async}
    (producerAnswer : ProducerAnswer former)
    (consumerAnswer : ConsumerAnswer latter) :
    former &&& latter ≠ 0 := by
  rcases producerAnswer with rfl | rfl <;> rcases consumerAnswer with rfl | rfl <;> decide

/-- The producer runs until it has to wait, then the consumer. -/
theorem producerFirst_result
    {numItems bufsize total : Nat}
    (all : min numItems (initSem bufsize) = total) :
    match resumeBoth .producerFirst numItems bufsize (State.started bufsize) with
    | none =>
        2 ^ 31 ≤ total ∨ ∃ taken, taken < total ∧ 2 ^ 31 ≤ (total + taken) % bufsize + 1
    | some (condition, state) =>
        condition ≠ 0 ∧ total < 2 ^ 31 ∧ Consuming bufsize total total state := by
  have made := (started_producing bufsize).producer numItems
  rw [all] at made
  simp only [resumeBoth]
  generalize producer numItems bufsize _ _ = returned at made ⊢
  cases returned with
  | none =>
      exact Or.inl made
  | some answer =>
      obtain ⟨former, state⟩ := answer
      obtain ⟨producerAnswer, producing, inRange⟩ := made
      have taken := producing.consumer numItems inRange (by omega)
      simp only [Option.bind_eq_bind, Option.bind_some]
      generalize consumer numItems bufsize _ _ = returned at taken ⊢
      cases returned with
      | none =>
          exact Or.inr taken
      | some answer =>
          exact ⟨conjunction_nonzero producerAnswer taken.1, inRange, taken.2⟩

/-- A consumer that is resumed before the producer waits, or has nothing to do. -/
theorem consumer_waits (numItems bufsize : Nat) :
    ∃ latter state,
      consumer numItems bufsize (State.started bufsize).crConsumer (State.started bufsize) =
        some (latter, state) ∧
      ConsumerAnswer latter ∧
      Producing bufsize 0 state := by
  have started : Producing bufsize 0 { State.started bufsize with consumed := 0 } :=
    { started_producing bufsize with }
  by_cases more : 0 < numItems
  · refine ⟨consumerLine, _, ?_, Or.inr rfl, started⟩
    simp [consumer, resumeConsumer, loop, consumerRound, more, State.started, initSem]
  · refine ⟨asyncDone, _, ?_, Or.inl rfl, started⟩
    simp [consumer, more, State.started]

/-- The consumer finds nothing to take, then the producer runs. -/
theorem consumerFirst_result
    {numItems bufsize : Nat}
    {condition : Async}
    {state : State}
    (returned :
      resumeBoth .consumerFirst numItems bufsize (State.started bufsize) =
        some (condition, state)) :
    condition ≠ 0 ∧ Producing bufsize (min numItems (initSem bufsize)) state := by
  obtain ⟨latter, between, waited, consumerAnswer, producing⟩ := consumer_waits numItems bufsize
  have made := producing.producer numItems
  simp only [resumeBoth, waited, Option.bind_eq_bind, Option.bind_some,
    Option.bind_eq_some_iff] at returned
  obtain ⟨answer, ran, same⟩ := returned
  rw [ran] at made
  cases same
  exact ⟨conjunction_nonzero made.1 consumerAnswer, made.2.1⟩

/-- An `await` that goes through ends the driver at its first call, and with it `main`. -/
theorem main_done
    {order : Order}
    {numItems bufsize : Nat}
    {condition : Async}
    {state : State}
    (returned : resumeBoth order numItems bufsize (State.started bufsize) = some (condition, state))
    (nonzero : condition ≠ 0)
    (calls : Nat) :
    main order numItems bufsize (calls + 1) = some { state with driverPt := asyncDone } := by
  have called :
      driverThread order numItems bufsize State.initial.driverPt State.initial =
        some (asyncDone, state) := by
    have started : awaitBoth order numItems bufsize (State.started bufsize) =
        some (asyncDone, state) := by
      simp only [awaitBoth, returned, Option.bind_eq_bind, Option.bind_some, if_neg nonzero]
      rfl
    exact started
  have running : State.initial.driverPt ≠ asyncDone := by
    decide
  simp [main, loop, mainRound, asyncCall, running, called]

/-- Undefined behaviour in a coroutine is undefined behaviour of the program. -/
theorem main_undefined
    {order : Order}
    {numItems bufsize : Nat}
    (undefined : resumeBoth order numItems bufsize (State.started bufsize) = none)
    (calls : Nat) :
    main order numItems bufsize calls = none := by
  have called :
      driverThread order numItems bufsize State.initial.driverPt State.initial = none := by
    have started : awaitBoth order numItems bufsize (State.started bufsize) = none := by
      simp [awaitBoth, undefined]
    exact started
  have running : State.initial.driverPt ≠ asyncDone := by
    decide
  cases calls with
  | zero =>
      rfl
  | succ calls =>
      simp [main, loop, mainRound, asyncCall, running, called]

/-! ## What is delivered -/

/--
`main` finds the driver done, the producer has produced the items below `numItems` and
the consumer has consumed them in the same order.
-/
def Delivers (order : Order) (numItems bufsize : Nat) : Prop :=
  ∃ calls final,
    main order numItems bufsize calls = some final ∧
    producedItems final.output = List.range numItems ∧
    consumedItems final.output = List.range numItems

/-- The coroutines deliver what they have produced and consumed at their first resumption. -/
theorem delivers_iff_resumed (order : Order) (numItems bufsize : Nat) :
    Delivers order numItems bufsize ↔
      ∃ condition state,
        resumeBoth order numItems bufsize (State.started bufsize) = some (condition, state) ∧
        producedItems state.output = List.range numItems ∧
        consumedItems state.output = List.range numItems := by
  cases resumed : resumeBoth order numItems bufsize (State.started bufsize) with
  | none =>
      simp [Delivers, main_undefined resumed]
  | some answer =>
      obtain ⟨condition, state⟩ := answer
      have nonzero : condition ≠ 0 := by
        cases order with
        | producerFirst =>
            have result := producerFirst_result (rfl : min numItems (initSem bufsize) = _)
            rw [resumed] at result
            exact result.1
        | consumerFirst =>
            exact (consumerFirst_result resumed).1
      constructor
      · rintro ⟨calls, final, ran, delivered⟩
        cases calls with
        | zero =>
            cases ran
        | succ calls =>
            rw [main_done resumed nonzero] at ran
            cases ran
            exact ⟨condition, state, rfl, delivered⟩
      · rintro ⟨condition', state', same, delivered⟩
        cases same
        exact ⟨1, _, main_done resumed nonzero 0, delivered⟩

/-- Resumed first, the consumer is never resumed again, so it consumes nothing. -/
theorem consumerFirst_delivers (numItems bufsize : Nat) :
    Delivers .consumerFirst numItems bufsize ↔ numItems = 0 := by
  rw [delivers_iff_resumed]
  constructor
  · rintro ⟨condition, state, resumed, -, consumed⟩
    have producing := (consumerFirst_result resumed).2
    rw [producing.consumedItems] at consumed
    exact List.range_eq_nil.mp consumed.symm
  · rintro rfl
    obtain ⟨latter, between, waited, -, producing⟩ := consumer_waits 0 bufsize
    refine ⟨asyncDone &&& latter, { between with produced := 0 }, ?_,
      producing.producedItems, producing.consumedItems⟩
    simp [resumeBoth, waited, producer, producing.crProducer]

/--
The consumer starts at the place behind the last item, which is the place of the first
item only when the items fill the buffer.
-/
theorem placed_eq_range
    {count bufsize : Nat}
    (room : count ≤ bufsize) :
    (List.range count).map (fun index => placed bufsize count (count + index)) =
        List.range count ↔
      count ≤ 1 ∨ count = bufsize := by
  constructor
  · intro same
    by_contra other
    have inside : 1 < count := by
      omega
    have second := congrArg (fun items => items[1]?) same
    simp only [List.getElem?_map, List.getElem?_range inside, Option.map_some, placed,
      Option.some.injEq] at second
    by_cases last : count + 1 = bufsize
    · simp [last] at second
    · rw [Nat.mod_eq_of_lt (by omega)] at second
      split at second <;> omega
  · intro few
    conv_rhs => rw [← List.map_id (List.range count)]
    refine List.map_congr_left fun index member => ?_
    have inside := List.mem_range.mp member
    rcases few with single | full
    · have first : index = 0 := by
        omega
      have one : count = 1 := by
        omega
      subst first one
      simp only [placed, id]
      split <;> omega
    · subst full
      simp [placed, Nat.mod_eq_of_lt inside, inside]

/-- Resumed first, the producer must make all items at once and the consumer find them. -/
theorem producerFirst_delivers (numItems bufsize : Nat) :
    Delivers .producerFirst numItems bufsize ↔
      numItems ≤ initSem bufsize ∧ numItems < 2 ^ 31 ∧ (numItems ≤ 1 ∨ numItems = bufsize) := by
  have result := producerFirst_result (rfl : min numItems (initSem bufsize) = _)
  have small := initSem_le bufsize
  rw [delivers_iff_resumed]
  constructor
  · rintro ⟨condition, state, resumed, produced, consumed⟩
    rw [resumed] at result
    obtain ⟨-, inRange, consuming⟩ := result
    have all : min numItems (initSem bufsize) = numItems := by
      have lengths := congrArg List.length (consuming.producedItems.symm.trans produced)
      simpa only [List.length_range] using lengths
    rw [all] at inRange consuming
    refine ⟨by omega, inRange, (placed_eq_range (by omega)).mp ?_⟩
    exact consuming.consumedItems.symm.trans consumed
  · rintro ⟨room, inRange, few⟩
    have all : min numItems (initSem bufsize) = numItems :=
      Nat.min_eq_left room
    rw [all] at result
    cases resumed : resumeBoth .producerFirst numItems bufsize (State.started bufsize) with
    | none =>
        rw [resumed] at result
        rcases result with outOfRange | ⟨taken, inside, outOfRange⟩
        · omega
        · rcases few with single | full
          · have place := Nat.mod_le (numItems + taken) bufsize
            omega
          · rw [← full, Nat.add_mod_left, Nat.mod_eq_of_lt inside] at outOfRange
            omega
    | some answer =>
        obtain ⟨condition, state⟩ := answer
        rw [resumed] at result
        obtain ⟨-, -, consuming⟩ := result
        exact ⟨condition, state, rfl, consuming.producedItems,
          consuming.consumedItems.trans ((placed_eq_range (by omega)).mpr few)⟩

/--
Exactly when the coroutines deliver: no items at all, or the producer resumed first and
either a single item with room for it, or as many items as the buffer has places.
-/
theorem delivers_exactly_when (order : Order) (numItems bufsize : Nat) :
    Delivers order numItems bufsize ↔
      numItems = 0 ∨
        order = .producerFirst ∧
          (numItems = 1 ∧ bufsize % 2 ^ 32 ≠ 0 ∨ numItems = bufsize ∧ numItems < 2 ^ 31) := by
  cases order with
  | consumerFirst =>
      simp [consumerFirst_delivers]
  | producerFirst =>
      simp only [producerFirst_delivers, true_and]
      have counted : initSem bufsize = bufsize % 2 ^ 32 :=
        rfl
      omega

/-- As shipped, with 32 items and 8 places, the items are not delivered. -/
theorem shipped_undelivered :
    ¬ Delivers .producerFirst 32 8 ∧ ¬ Delivers .consumerFirst 32 8 := by
  rw [producerFirst_delivers, consumerFirst_delivers]
  decide

end Sysprog.Coroutine
