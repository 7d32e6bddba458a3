import Sysprog.XsCalls

namespace Sysprog.Xstring

open ByteMemory CStrings Execution MachineWord ReferenceCounts

/-!
# The lifetime of a buffer

Programs of all calls, with handles in any combination.  In runs without an edit that
reaches the flags of a short string, every buffer counts its handles, lives as long as
one of them refers to it, and is freed by the call that takes the last one away.
-/

variable
  {Handle : Type}
  [DecidableEq Handle]
  {state : State Handle}

/-! ## Programs of all calls -/

/-- One call, including those that cut a token or grow a string. -/
inductive Call (Handle : Type) where
  | op (op : Op Handle)
  | tok
      (handle : Handle)
      (delim : CString)
      (saveptr : Pointer Handle)
      (allocation : Allocation)
  | grow (handle : Handle) (len : Nat) (allocation : Allocation)

/-- The handle a call writes to. -/
def Call.target : Call Handle → Handle
  | .op (.new handle _ _) => handle
  | .op (.copy _ dest) => dest
  | .op (.concat string _ _ _) => string
  | .op (.trim handle _ _) => handle
  | .op (.free handle) => handle
  | .tok handle _ _ _ => handle
  | .grow handle _ _ => handle

/-- Run one call. -/
def executeCall (state : State Handle) : Call Handle → Option (State Handle)
  | .op op => execute state op
  | .tok handle delim saveptr allocation =>
      (xsTokR state (some handle) delim saveptr allocation).map Token.state
  | .grow handle len allocation => xsGrow state (some handle) len allocation

/--
The calls a program may make: new strings and copies go to unused handles, `xs_trim` is
given a string with a byte to keep or none at all, `xs_grow` an unshared heap string,
and no string reaches `2 ^ 32 - 1` bytes.  `xs_concat` takes any handles.
-/
def Permitted (state : State Handle) : Call Handle → Prop
  | .op (.concat string former latter allocation) =>
      xsSize (state.xs (some string)) + xsSize (state.xs (some former)) +
          xsSize (state.xs (some latter)) < 2 ^ 32 - 1 ∧
        Fresh state allocation
  | .op op => Admissible state op
  | .tok _ _ _ allocation => Fresh state allocation
  | .grow handle len allocation =>
      (state.xs (some handle)).isPtr = true ∧
        refcountGet state (some handle) = some 1 ∧
        len < 2 ^ 32 - 1 ∧
        Fresh state allocation

/-- One call of such a program. -/
def CallStep (before : State Handle) (call : Call Handle) (after : State Handle) : Prop :=
  Permitted before call ∧ executeCall before call = some after

/-- The call leaves the flags of a short string alone. -/
def SparesFlags (state : State Handle) : Call Handle → Prop
  | .op (.concat string former latter _) => EndsClear state string former latter
  | _ => True

/--
The call is defined: it finds the end of the text it has to scan, and copies no bytes to a
range that they are in.
-/
def Defined (state : State Handle) : Call Handle → Prop
  | .op (.concat string former latter _) => ¬ CopiesOverlap state string former latter
  | .tok handle delim _ _ => delim.bytes ≠ [] → FindsNul state handle
  | _ => True

/-- Each buffer counts the handles that refer to it, and no handle refers to a freed one. -/
structure CountsHandles (state : State Handle) : Prop where
  counts :
    ∀ address block,
      state.heap address = some block →
      ∃ owners : Finset Handle,
        (∀ handle, handle ∈ owners ↔ Refers state handle address) ∧
          block.refcnt = owners.card
  live :
    ∀ handle address, Refers state handle address → ∃ block, state.heap address = some block

/-- A call frees exactly the buffers whose last handle it takes away. -/
def FreesWithLast (before after : State Handle) : Prop :=
  ∀ address,
    (before.heap address ≠ none ∧ after.heap address = none) ↔
      (∃ handle, Refers before handle address) ∧ ∀ handle, ¬ Refers after handle address

/-! ## One call -/

omit [DecidableEq Handle] in
/-- A handle refers to what it holds in the ledger. -/
theorem refers_iff {handle : Handle} {address : Nat} :
    Refers state handle address ↔ (ledger state).holds handle = some address :=
  Xs.held_eq_some.symm

omit [DecidableEq Handle] in
/-- Exact counts in terms of handles and buffers. -/
theorem Accounted.countsHandles (accounted : Accounted state) : CountsHandles state where
  counts := by
    intro address block live
    obtain ⟨owners, members, counted⟩ := accounted.exact address
    refine ⟨owners, fun handle => (members handle).trans refers_iff.symm, ?_⟩
    have present : (ledger state).count address = some block.refcnt := by
      simp [ledger, live]
    rw [present] at counted
    split at counted
    · simp at counted
    · exact Option.some.inj counted
  live := by
    intro handle address refers
    obtain ⟨count, counted⟩ := accounted.exact.counted (refers_iff.mp refers)
    obtain ⟨block, live, _⟩ := Option.map_eq_some_iff.mp counted
    exact ⟨block, live⟩

omit [DecidableEq Handle] in
/-- Between states with exact counts buffers are freed with their last handle. -/
theorem Accounted.freesWithLast
    {after : State Handle}
    (accounted : Accounted state)
    (accountedAfter : Accounted after) :
    FreesWithLast state after := by
  intro address
  have freed := @Exact.freed_iff _ _ _ address _ accounted.exact accountedAfter.exact
  simp only [refers_iff]
  rw [← freed]
  simp only [ledger, ne_eq, Option.map_eq_none_iff]

omit [DecidableEq Handle] in
/-- What holds of the result of a call holds of the state the call returns. -/
private theorem of_returned
    {called : Option (State Handle)}
    {after : State Handle}
    {property : State Handle → Prop}
    (spec : ∃ result, called = some result ∧ property result)
    (returned : called = some after) :
    property after := by
  obtain ⟨result, again, holds⟩ := spec
  obtain rfl := Option.some.inj (again.symm.trans returned)
  exact holds

/-- A permitted call that is defined succeeds and keeps the counts exact. -/
theorem Accounted.executeCall
    {call : Call Handle}
    (accounted : Accounted state)
    (permitted : Permitted state call)
    (spares : SparesFlags state call)
    (defined : Defined state call) :
    ∃ result,
      executeCall state call = some result ∧
        Accounted result ∧
        Touches state result call.target := by
  cases call with
  | op op =>
      cases op with
      | new handle p allocation =>
          obtain ⟨unused, short, fresh⟩ := permitted
          exact accounted.new unused p short fresh
      | copy source dest =>
          exact accounted.copy permitted
      | concat string former latter allocation =>
          obtain ⟨short, fresh⟩ := permitted
          exact accounted.concat defined spares short fresh
      | trim handle trimset allocation =>
          obtain ⟨kept, fresh⟩ := permitted
          exact accounted.trim handle trimset kept fresh
      | free handle =>
          exact accounted.free handle
  | tok handle delim saveptr allocation =>
      obtain ⟨token, returned⟩ := accounted.tok_returns handle delim saveptr defined permitted
      refine ⟨token.state, ?_, accounted.tok permitted returned⟩
      rw [Xstring.executeCall, returned]
      rfl
  | grow handle len allocation =>
      obtain ⟨isPtr, unshared, short, fresh⟩ := permitted
      exact accounted.grow isPtr unshared short fresh

/-- A permitted call keeps the counts exact whenever it returns. -/
theorem Accounted.step
    {call : Call Handle}
    {after : State Handle}
    (accounted : Accounted state)
    (step : CallStep state call after)
    (spares : SparesFlags state call) :
    Accounted after ∧ Touches state after call.target := by
  obtain ⟨permitted, returned⟩ := step
  cases call with
  | op op =>
      have defined : Defined state (.op op) := by
        cases op with
        | concat string former latter allocation =>
            intro overlap
            rw [Xstring.executeCall, execute, overlap.concat_eq_none] at returned
            cases returned
        | new => trivial
        | copy => trivial
        | trim => trivial
        | free => trivial
      exact of_returned (accounted.executeCall permitted spares defined) returned
  | tok handle delim saveptr allocation =>
      obtain ⟨token, found, rfl⟩ := Option.map_eq_some_iff.mp returned
      exact accounted.tok permitted found
  | grow handle len allocation =>
      exact of_returned (accounted.executeCall permitted spares trivial) returned

/-! ## Whole programs -/

omit [DecidableEq Handle] in
/-- Before the first call there is nothing to count. -/
theorem accounted_initial : Accounted (State.initial : State Handle) where
  exact := by
    intro address
    refine ⟨∅, ?_, rfl⟩
    intro handle
    simp [ledger, State.initial, Xs.held_literalEmpty]
  backed := by
    intro handle isPtr
    rw [State.initial, inline_literalEmpty.1.not_isPtr] at isPtr
    simp at isPtr

/--
In every program whose calls leave the flags of short strings alone, each buffer counts
the handles that refer to it, no handle refers to a freed buffer, every call frees
exactly the buffers whose last handle it takes away, and every further such call that is
defined succeeds.
-/
theorem buffers_live_with_handles
    {calls : List (Call Handle)}
    (run : Run CallStep State.initial calls state)
    (spares :
      StepsSatisfy CallStep State.initial calls fun before call _ => SparesFlags before call) :
    CountsHandles state ∧
      (StepsSatisfy CallStep State.initial calls fun before _ after =>
        FreesWithLast before after) ∧
      ∀ call,
        Permitted state call →
        SparesFlags state call →
        Defined state call →
        ∃ after, CallStep state call after := by
  have preserved : ∀ {before call after}, Accounted before → CallStep before call after →
      SparesFlags before call → Accounted (after : State Handle) := by
    intro before call after accounted step sparesHere
    exact (accounted.step step sparesHere).1
  have accounted : Accounted state := spares.invariant run accounted_initial preserved
  refine ⟨accounted.countsHandles, ?_, ?_⟩
  · refine spares.mono accounted_initial preserved ?_
    intro before call after accounted step sparesHere
    exact accounted.freesWithLast (preserved accounted step sparesHere)
  · intro call permitted sparesHere defined
    obtain ⟨after, returned, _⟩ := accounted.executeCall permitted sparesHere defined
    exact ⟨after, permitted, returned⟩

/-- The state after a call is determined. -/
theorem CallStep.functional
    {before first second : State Handle}
    {call : Call Handle}
    (taken : CallStep before call first)
    (again : CallStep before call second) :
    first = second :=
  Option.some.inj (taken.2.symm.trans again.2)

/-- The delimiter `" "`. -/
def space : CString :=
  ⟨[32], by decide⟩

/-- The only string there is holds what it was created with. -/
theorem valid_alone
    {p : CString}
    {state : State Bool}
    (created : xsNew State.initial (some true) p ⟨4096, fun _ => 0⟩ = some state)
    (short : p.bytes.length < 2 ^ 32 - 1) :
    Valid state (Function.update (fun _ => []) true p.bytes) := by
  obtain ⟨result, again, valid⟩ :=
    @Valid.new _ _ _ _ true ⟨4096, fun _ => 0⟩ valid_initial rfl p short ⟨rfl, by decide⟩
  obtain rfl := Option.some.inj (again.symm.trans created)
  exact valid

/-- A long string of two words and a copy of it. -/
private def sharedCalls : List (Call (Fin 2)) :=
  let text : CString := ⟨List.replicate 16 97 ++ [32, 98], by decide⟩
  [.op (.new 0 text ⟨4096, fun _ => 0⟩), .op (.copy 0 1)]

/-- Cut the first word off the copy. -/
private def cutCall : Call (Fin 2) :=
  .tok 1 space ⟨.inline none, 0⟩ ⟨8192, fun _ => 0⟩

theorem buffers_live_with_sharedCalls :
    ∃ state,
      Run CallStep State.initial (sharedCalls ++ [cutCall] ++ [.op (.free 0)]) state ∧
        CountsHandles state := by
  have shared : ∃ before, Run CallStep State.initial sharedCalls before ∧
      Permitted before cutCall ∧ Defined before cutCall := by
    refine ⟨_, .extend (.extend .stop ⟨⟨rfl, by decide, rfl, by decide⟩, rfl⟩)
      ⟨by exact rfl, rfl⟩, ⟨rfl, by decide⟩, ?_⟩
    intro _
    refine ⟨2, rfl, ?_⟩
    rw [if_pos (by decide)]
    exact ⟨_, rfl, by decide⟩
  obtain ⟨before, run, permitted, defined⟩ := shared
  have spares : StepsSatisfy CallStep State.initial (sharedCalls ++ [cutCall] ++ [.op (.free 0)])
      fun before call _ => SparesFlags before call := by
    -- None of these calls concatenates.
    refine StepsSatisfy.of_labels ?_
    intro call member before _
    simp only [sharedCalls, cutCall, List.cons_append, List.nil_append, List.mem_cons,
      List.not_mem_nil, or_false] at member
    rcases member with rfl | rfl | rfl | rfl <;> trivial
  obtain ⟨_, _, succeeds⟩ := buffers_live_with_handles run spares.of_append.of_append
  obtain ⟨between, cut⟩ := succeeds cutCall permitted trivial defined
  obtain ⟨_, _, succeedsAgain⟩ := buffers_live_with_handles (run.extend cut) spares.of_append
  obtain ⟨final, freed⟩ := succeedsAgain (.op (.free 0)) trivial trivial trivial
  have whole := (run.extend cut).extend freed
  exact ⟨final, whole, (buffers_live_with_handles whole spares).1⟩

/-- A short string of seven digits, a letter, and the string with itself behind it. -/
private def suffixCalls : List (Call (Fin 2)) :=
  let digits : CString := ⟨[48, 49, 50, 51, 52, 53, 54], by decide⟩
  let letter : CString := ⟨[112], by decide⟩
  let unneeded : Allocation := ⟨4096, fun _ => 0⟩
  [.op (.new 0 digits unneeded), .op (.new 1 letter unneeded), .op (.concat 0 1 0 unneeded)]

/--
A short string that is its own suffix: the bytes of the suffix are read after the
string was shifted, and the last one, which is no terminator, becomes the flags.
-/
theorem own_suffix_forges_pointer :
    ∃ state, Run CallStep State.initial suffixCalls state ∧ ¬ CountsHandles state := by
  have forged : ∃ state, Run CallStep State.initial suffixCalls state ∧
      (state.xs (some 0)).isPtr = true ∧ ∀ address, state.heap address = none := by
    refine ⟨_, .extend (.extend (.extend .stop
      ⟨⟨rfl, by decide, rfl, by decide⟩, rfl⟩) ⟨⟨rfl, by decide, rfl, by decide⟩, rfl⟩)
      ⟨⟨by decide, rfl, by decide⟩, rfl⟩, ?_, ?_⟩
    · decide
    · intro address
      rfl
  obtain ⟨state, run, isPtr, nothing⟩ := forged
  refine ⟨state, run, ?_⟩
  intro counts
  obtain ⟨block, live⟩ := counts.live 0 _ ⟨isPtr, rfl⟩
  rw [nothing] at live
  simp at live

end Sysprog.Xstring
