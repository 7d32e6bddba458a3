import Sysprog.FuelLoop

namespace Sysprog.DeferMacros

open FuelLoop

/-!
# The macros of `cdefer/defer.h`

`Defer` stores the label of its block in an array, and `Return` starts a chain of jumps: the
code behind each block takes the next label from the array, or goes to the label behind
`Return` when none is left.  The array has `maxDeferred` places, which is
`__MAX_DEFERRED_STATEMENTS`, and its index is an `unsigned char`.  `none` is an access
outside of the array, a jump to the null pointer, or a budget of jumps that runs out.
-/

/-- What a function does while it returns. -/
inductive Event (Label : Type) where
  /-- The block at a label runs. -/
  | block (n : Label)
  /-- The expression of a `Return` is evaluated. -/
  | returned (n : Label)
  deriving DecidableEq, Repr

/-- The variables of `DEFER_INIT`, and what has been done. -/
structure Frame (Label : Type) where
  deferralNum : UInt8
  deferReturnLabel : Option Label
  deferrals : Nat → Option Label
  events : List (Event Label)

variable {Label : Type}

/-- `DEFER_INIT`. -/
def deferInit : Frame Label where
  deferralNum := 0
  deferReturnLabel := none
  deferrals := fun _ => none
  events := []

/-- The part of `Defer` that is run where it stands. -/
def register (maxDeferred : Nat) (frame : Frame Label) (n : Label) : Option (Frame Label) :=
  let place := frame.deferralNum.toNat
  if place < maxDeferred then
    some
      { frame with
        deferrals := fun index => if index = place then some n else frame.deferrals index
        deferralNum := frame.deferralNum + 1 }
  else
    none

/-- `goto *__deferrals[--__deferral_num]`: the label that control goes to. -/
def gotoDeferral (maxDeferred : Nat) (frame : Frame Label) :
    Round (Frame Label × Label) (Option (List (Event Label))) :=
  let deferralNum := frame.deferralNum - 1
  if deferralNum.toNat < maxDeferred then
    match frame.deferrals deferralNum.toNat with
    | some n => .again ({ frame with deferralNum }, n)
    | none => .leave none
  else
    .leave none

/-- The block at a label, and the jump behind it. -/
def deferredRound (maxDeferred : Nat) :
    Frame Label × Label → Round (Frame Label × Label) (Option (List (Event Label)))
  | (frame, n) =>
      let frame := { frame with events := frame.events ++ [.block n] }
      if frame.deferralNum ≠ 0 then
        gotoDeferral maxDeferred frame
      else
        match frame.deferReturnLabel with
        | some fini => .leave (some (frame.events ++ [.returned fini]))
        | none => .leave none

/-- `Return`. -/
def deferReturn (maxDeferred fuel : Nat) (frame : Frame Label) (n : Label) :
    Option (List (Event Label)) :=
  if frame.deferralNum ≠ 0 then
    match gotoDeferral maxDeferred { frame with deferReturnLabel := some n } with
    | .again state => (loop (deferredRound maxDeferred) fuel state).join
    | .leave result => result
  else
    some (frame.events ++ [.returned n])

/-- A function that runs through these `Defer` statements, in this order, and then returns. -/
def run (maxDeferred fuel : Nat) (defers : List Label) (n : Label) :
    Option (List (Event Label)) := do
  let frame ← defers.foldlM (register maxDeferred) deferInit
  deferReturn maxDeferred fuel frame n

/-- Every registration's block runs once, the last one first, and then the expression. -/
def RunsDeferred (maxDeferred : Nat) (defers : List Label) (n : Label) : Prop :=
  ∀ fuel,
    defers.length < fuel →
    run maxDeferred fuel defers n = some (defers.reverse.map .block ++ [.returned n])

/-! ## The labels in the array -/

/-- The array holds these labels, the first of them on top. -/
structure Stacked (frame : Frame Label) (pending : List Label) : Prop where
  number : frame.deferralNum.toNat = pending.length
  labels : ∀ index, index < pending.length → frame.deferrals index = pending.reverse[index]?

variable {maxDeferred : Nat} {frame : Frame Label} {pending defers : List Label} {n : Label}

theorem Stacked.init : Stacked (deferInit : Frame Label) [] :=
  ⟨rfl, fun _ inside => absurd inside (Nat.not_lt_zero _)⟩

/-- The number says that a label is there. -/
theorem Stacked.deferralNum_ne_zero (stacked : Stacked frame (n :: pending)) :
    frame.deferralNum ≠ 0 := by
  intro none
  have number := stacked.number
  rw [none] at number
  simp at number

/-- A label goes on top where the array has a place and the number does not wrap. -/
theorem Stacked.register
    (stacked : Stacked frame pending)
    (room : pending.length < maxDeferred)
    (narrow : pending.length < 255)
    (n : Label) :
    ∃ after,
      register maxDeferred frame n = some after ∧
        Stacked after (n :: pending) ∧
        after.events = frame.events := by
  have number := stacked.number
  refine ⟨_, if_pos (by rwa [number]), ⟨?_, fun index inside => ?_⟩, rfl⟩
  · rw [UInt8.toNat_add, number, List.length_cons]
    exact Nat.mod_eq_of_lt (by rw [UInt8.toNat_one]; omega)
  · rw [List.length_cons] at inside
    simp only [number, List.reverse_cons]
    by_cases top : index = pending.length
    · rw [if_pos top, top, List.getElem?_append_right (by simp)]
      simp
    · rw [if_neg top, stacked.labels index (by omega),
        List.getElem?_append_left (by simp; omega)]

/-- The number one lower. -/
theorem toNat_pred {number : UInt8} {count : Nat} (value : number.toNat = count + 1) :
    (number - 1).toNat = count := by
  have bound := number.toNat_lt
  rw [UInt8.toNat_sub, value, UInt8.toNat_one]
  omega

/-- The jump goes to the label on top and takes it off. -/
theorem Stacked.gotoDeferral
    (stacked : Stacked frame (n :: pending))
    (room : pending.length < maxDeferred) :
    gotoDeferral maxDeferred frame =
        .again ({ frame with deferralNum := frame.deferralNum - 1 }, n) ∧
      Stacked { frame with deferralNum := frame.deferralNum - 1 } pending := by
  have number : (frame.deferralNum - 1).toNat = pending.length :=
    toNat_pred (by rw [stacked.number, List.length_cons])
  have top : frame.deferrals pending.length = some n := by
    rw [stacked.labels _ (by simp)]
    simp
  refine ⟨?_, number, fun index inside => ?_⟩
  · simp only [DeferMacros.gotoDeferral, number, if_pos room, top]
  · rw [stacked.labels index (by simp; omega), List.reverse_cons,
      List.getElem?_append_left (by simpa using inside)]

/-! ## The chain of jumps -/

/-- The blocks from a label on run down the array, and the expression comes last. -/
theorem chain_runs
    {fini : Label}
    (stacked : Stacked frame pending)
    (room : pending.length < maxDeferred)
    (returns : frame.deferReturnLabel = some fini)
    {fuel : Nat}
    (enough : pending.length < fuel) :
    (loop (deferredRound maxDeferred) fuel (frame, n)).join =
      some (frame.events ++ (n :: pending).map .block ++ [.returned fini]) := by
  induction pending generalizing frame n fuel with
  | nil =>
      obtain ⟨fuel, rfl⟩ := exists_round enough
      have last : frame.deferralNum = 0 := UInt8.toNat_inj.mp stacked.number
      rw [loop, deferredRound]
      simp [last, returns]
  | cons next rest inductionHypothesis =>
      obtain ⟨fuel, rfl⟩ := exists_round enough
      have more := stacked.deferralNum_ne_zero
      have logged : Stacked { frame with events := frame.events ++ [.block n] } (next :: rest) :=
        ⟨stacked.number, stacked.labels⟩
      rw [List.length_cons] at room enough
      obtain ⟨jump, remaining⟩ :=
        @Stacked.gotoDeferral Label maxDeferred _ rest next logged (by omega)
      rw [loop, deferredRound]
      simp only [more, ne_eq, not_false_eq_true, if_true, jump]
      rw [inductionHypothesis remaining (by omega) returns (by omega)]
      simp

/-- `Return` runs every pending block, the one on top first. -/
theorem deferReturn_runs
    (stacked : Stacked frame pending)
    (room : pending.length ≤ maxDeferred)
    (fresh : frame.events = [])
    {fuel : Nat}
    (enough : pending.length < fuel) :
    deferReturn maxDeferred fuel frame n = some (pending.map .block ++ [.returned n]) := by
  cases pending with
  | nil =>
      have none : frame.deferralNum = 0 := UInt8.toNat_inj.mp stacked.number
      simp [deferReturn, none, fresh]
  | cons top rest =>
      have more := stacked.deferralNum_ne_zero
      have labelled : Stacked { frame with deferReturnLabel := some n } (top :: rest) :=
        ⟨stacked.number, stacked.labels⟩
      rw [List.length_cons] at room enough
      obtain ⟨jump, remaining⟩ :=
        @Stacked.gotoDeferral Label maxDeferred _ rest top labelled (by omega)
      rw [deferReturn, if_pos more]
      simp only [jump]
      rw [@chain_runs Label maxDeferred _ rest top n remaining (by omega) rfl fuel (by omega)]
      simp [fresh]

/-- Registering as many labels as there are places and values of the index stacks them. -/
theorem registered
    (stacked : Stacked frame pending)
    (room : pending.length + defers.length ≤ maxDeferred)
    (narrow : pending.length + defers.length ≤ 255) :
    ∃ after,
      defers.foldlM (register maxDeferred) frame = some after ∧
        Stacked after (defers.reverse ++ pending) ∧
        after.events = frame.events := by
  induction defers generalizing frame pending with
  | nil => exact ⟨frame, rfl, stacked, rfl⟩
  | cons label rest inductionHypothesis =>
      rw [List.length_cons] at room narrow
      obtain ⟨after, stored, onTop, kept⟩ :=
        stacked.register (show pending.length < maxDeferred by omega) (by omega) label
      obtain ⟨final, done, result, same⟩ :=
        inductionHypothesis onTop (by rw [List.length_cons]; omega)
          (by rw [List.length_cons]; omega)
      refine ⟨final, ?_, ?_, same.trans kept⟩
      · rw [List.foldlM_cons, stored]
        exact done
      · rw [List.reverse_cons, List.append_assoc]
        exact result

/-! ## Too many registrations -/

/-- A registration that is stored raises the number by one, with 256 back at zero. -/
theorem register_some
    {after : Frame Label}
    (stored : register maxDeferred frame n = some after) :
    frame.deferralNum.toNat < maxDeferred ∧
      after.deferralNum.toNat = (frame.deferralNum.toNat + 1) % 256 ∧
      after.events = frame.events := by
  by_cases room : frame.deferralNum.toNat < maxDeferred
  · rw [register, if_pos room] at stored
    obtain rfl := Option.some.inj stored
    refine ⟨room, ?_, rfl⟩
    rw [UInt8.toNat_add, UInt8.toNat_one]
  · rw [register, if_neg room] at stored
    simp at stored

/-- The number counts the registrations modulo 256. -/
theorem registered_number
    {after : Frame Label}
    (done : defers.foldlM (register maxDeferred) frame = some after) :
    after.deferralNum.toNat = (frame.deferralNum.toNat + defers.length) % 256 ∧
      after.events = frame.events := by
  induction defers generalizing frame with
  | nil =>
      obtain rfl := Option.some.inj done
      have bound := frame.deferralNum.toNat_lt
      exact ⟨(Nat.mod_eq_of_lt bound).symm, rfl⟩
  | cons label rest inductionHypothesis =>
      rw [List.foldlM_cons] at done
      obtain ⟨next, stored, remaining⟩ := Option.bind_eq_some_iff.mp done
      obtain ⟨_, number, kept⟩ := register_some stored
      obtain ⟨total, same⟩ := inductionHypothesis remaining
      refine ⟨?_, same.trans kept⟩
      rw [total, number, List.length_cons]
      omega

/-- More registrations than an array of at most 255 places has do not all find one. -/
theorem registered_outside
    (small : maxDeferred ≤ 255)
    (within : frame.deferralNum.toNat ≤ maxDeferred)
    (more : maxDeferred < frame.deferralNum.toNat + defers.length) :
    defers.foldlM (register maxDeferred) frame = none := by
  induction defers generalizing frame with
  | nil =>
      rw [List.length_nil] at more
      omega
  | cons label rest inductionHypothesis =>
      rw [List.foldlM_cons]
      cases stored : register maxDeferred frame label with
      | none => rfl
      | some next =>
          obtain ⟨room, number, _⟩ := register_some stored
          rw [List.length_cons] at more
          rw [Nat.mod_eq_of_lt (by omega)] at number
          exact inductionHypothesis (by omega) (by omega)

/-- A jump to a deferred block takes one from the number. -/
theorem gotoDeferral_again
    {state : Frame Label × Label}
    (more : frame.deferralNum ≠ 0)
    (jump : gotoDeferral maxDeferred frame = .again state) :
    state.1.deferralNum.toNat + 1 = frame.deferralNum.toNat ∧
      state.1.events = frame.events := by
  have positive : frame.deferralNum.toNat ≠ 0 := fun none => more (UInt8.toNat_inj.mp none)
  obtain ⟨count, value⟩ := Nat.exists_eq_succ_of_ne_zero positive
  have lower := toNat_pred value
  rw [gotoDeferral] at jump
  split at jump
  · split at jump
    · obtain rfl := Round.again.inj jump
      exact ⟨by rw [lower, value], rfl⟩
    · simp at jump
  · simp at jump

/-- The jump to a deferred block never is the end of it all. -/
theorem gotoDeferral_leave
    {result : Option (List (Event Label))}
    (jump : gotoDeferral maxDeferred frame = .leave result) :
    result = none := by
  rw [gotoDeferral] at jump
  split at jump
  · split at jump
    · simp at jump
    · exact (Round.leave.inj jump).symm
  · exact (Round.leave.inj jump).symm

/-- What the chain of jumps does is as much as the number says. -/
theorem chain_length
    {fuel : Nat}
    {events : List (Event Label)}
    (returned : (loop (deferredRound maxDeferred) fuel (frame, n)).join = some events) :
    events.length = frame.events.length + frame.deferralNum.toNat + 2 := by
  have left := Option.join_eq_some_iff.mp returned
  refine
    loop_returns_post
      (fun state : Frame Label × Label =>
        state.1.events.length + state.1.deferralNum.toNat =
          frame.events.length + frame.deferralNum.toNat)
      (fun result : Option (List (Event Label)) =>
        ∀ events,
          result = some events →
          events.length = frame.events.length + frame.deferralNum.toNat + 2)
      ?_ rfl left events rfl
  rintro ⟨current, label⟩ same
  change current.events.length + current.deferralNum.toNat = _ at same
  simp only [deferredRound]
  by_cases more : current.deferralNum ≠ 0
  · rw [if_pos more]
    cases jump :
        gotoDeferral maxDeferred { current with events := current.events ++ [.block label] } with
    | again state =>
        obtain ⟨number, kept⟩ :=
          @gotoDeferral_again Label maxDeferred
            { current with events := current.events ++ [.block label] } state more jump
        simp only [RoundKeeps, kept, List.length_append, List.length_singleton]
        simp only [] at number
        omega
    | leave result =>
        rw [gotoDeferral_leave jump]
        exact fun events impossible => absurd impossible (by simp)
  · rw [if_neg more]
    have last : current.deferralNum.toNat = 0 := UInt8.toNat_inj.mpr (not_not.mp more)
    cases current.deferReturnLabel with
    | none => exact fun events impossible => absurd impossible (by simp)
    | some fini =>
        intro events result
        obtain rfl := Option.some.inj result
        simp only [List.length_append, List.length_singleton]
        omega

/-- A return does as much as the number says. -/
theorem deferReturn_length
    {fuel : Nat}
    {events : List (Event Label)}
    (returned : deferReturn maxDeferred fuel frame n = some events) :
    events.length = frame.events.length + frame.deferralNum.toNat + 1 := by
  rw [deferReturn] at returned
  by_cases more : frame.deferralNum ≠ 0
  · rw [if_pos more] at returned
    cases jump : gotoDeferral maxDeferred { frame with deferReturnLabel := some n } with
    | again state =>
        obtain ⟨number, kept⟩ :=
          @gotoDeferral_again Label maxDeferred { frame with deferReturnLabel := some n } state
            more jump
        simp only [jump] at returned
        have total := @chain_length Label maxDeferred state.1 state.2 fuel events returned
        simp only [] at number kept
        rw [total, kept]
        omega
    | leave result =>
        simp only [jump] at returned
        rw [gotoDeferral_leave jump] at returned
        simp at returned
  · rw [if_neg more] at returned
    have last : frame.deferralNum.toNat = 0 := UInt8.toNat_inj.mpr (not_not.mp more)
    obtain rfl := Option.some.inj returned
    rw [List.length_append, List.length_singleton, last]

/-! ## The limit -/

/-- As many registrations as the array and its index can tell are run as they should be. -/
theorem runsDeferred_of_le
    (room : defers.length ≤ maxDeferred)
    (narrow : defers.length ≤ 255) :
    RunsDeferred maxDeferred defers n := by
  intro fuel enough
  obtain ⟨frame, done, stacked, fresh⟩ :=
    @registered Label maxDeferred deferInit [] defers Stacked.init (by simpa using room)
      (by simpa using narrow)
  rw [List.append_nil] at stacked
  rw [run, done]
  exact deferReturn_runs stacked (by rwa [List.length_reverse]) fresh
    (by rwa [List.length_reverse])

/-- With more of them a store misses the array, or the number has wrapped and blocks are left out. -/
theorem not_runsDeferred_of_gt (more : min maxDeferred 255 < defers.length) :
    ¬ RunsDeferred maxDeferred defers n := by
  intro runs
  have returned := runs (defers.length + 1) (Nat.lt_succ_self _)
  obtain ⟨frame, done, result⟩ := Option.bind_eq_some_iff.mp returned
  have start : (deferInit : Frame Label).deferralNum.toNat = 0 := rfl
  by_cases small : maxDeferred ≤ 255
  · have outside :=
      @registered_outside Label maxDeferred deferInit defers small (by omega) (by omega)
    rw [outside] at done
    simp at done
  · obtain ⟨number, fresh⟩ := registered_number done
    have total := deferReturn_length result
    rw [fresh, number, start] at total
    simp only [List.length_append, List.length_map, List.length_reverse, List.length_singleton,
      deferInit, List.length_nil] at total
    omega

/--
The blocks run as they should, with every label stored in the array, exactly if there are
no more registrations than the array has places and than an `unsigned char` can count.
-/
theorem runsDeferred_iff (maxDeferred : Nat) (defers : List Label) (n : Label) :
    RunsDeferred maxDeferred defers n ↔
      defers.length ≤ maxDeferred ∧ defers.length ≤ 255 := by
  constructor
  · intro runs
    by_contra more
    exact not_runsDeferred_of_gt (by omega) runs
  · rintro ⟨room, narrow⟩
    exact runsDeferred_of_le room narrow

example : run 32 3 [0, 1] 7 = some [.block 1, .block 0, .returned 7] := by
  decide

/-- A `Defer` in a loop of 33 rounds stores its last label behind the array. -/
theorem registration_outside : ¬ RunsDeferred 32 (List.replicate 33 0) 1 :=
  not_runsDeferred_of_gt (by decide)

end Sysprog.DeferMacros
