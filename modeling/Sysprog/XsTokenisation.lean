import Sysprog.XsLifetimes

namespace Sysprog.Xstring

open ByteMemory CStrings Execution MachineWord

/-!
# Tokenising a string while copies of it are around

The first call of a tokenisation gets the handle and separates it from its copies.  The
later calls only get the saved pointer into its buffer and write there, whoever shares
that buffer by then.  This module settles which calls reach into another handle.
-/

variable
  {Handle : Type}
  [DecidableEq Handle]
  {state after : State Handle}
  {x : Handle}

/-! ## The calls of a tokenisation -/

/-- The handles and buffers, and the caller's variable `saveptr` once it is set. -/
structure Tokenisation (Handle : Type) where
  state : State Handle
  saved : Option (Pointer Handle)

/-- A call of the tokenisation, or some other call in between. -/
inductive Event (Handle : Type) where
  | first (delim : CString) (uninitialised : Pointer Handle) (allocation : Allocation)
  | later (delim : CString) (allocation : Allocation)
  | meanwhile (call : Call Handle)

/--
The first call gets `x`, later ones a null pointer and what was saved.  A call that
finds no token, or is given no delimiter, saves nothing.
-/
def advance (x : Handle) (world : Tokenisation Handle) :
    Event Handle → Option (Tokenisation Handle)
  | .first delim uninitialised allocation => do
      let token ← xsTokR world.state (some x) delim uninitialised allocation
      let saved :=
        if delim.bytes = [] ∨ token.token.isNone then world.saved else some token.saveptr
      return { state := token.state, saved := saved }
  | .later delim allocation => do
      let saveptr ← world.saved
      let token ← xsTokR world.state none delim saveptr allocation
      return { state := token.state, saved := some token.saveptr }
  | .meanwhile call => do
      let state ← executeCall world.state call
      return { world with state := state }

/-- A copy is made, or a handle with a buffer is worked on, but not `x`. -/
def Elsewhere (state : State Handle) (x : Handle) (call : Call Handle) : Prop :=
  call.target ≠ x ∧
    ((state.xs (some call.target)).isPtr = true ∨
      ∃ source dest, call = .op (.copy source dest))

/-- What the caller may do: one first call, and other calls only elsewhere. -/
def Allowed (x : Handle) (world : Tokenisation Handle) : Event Handle → Prop
  | .first _ _ allocation => world.saved = none ∧ Fresh world.state allocation
  | .later _ _ => True
  | .meanwhile call => Permitted world.state call ∧ Elsewhere world.state x call

/-- One event of a tokenisation of `x`. -/
def TokenStep
    (x : Handle)
    (before : Tokenisation Handle)
    (event : Event Handle)
    (after : Tokenisation Handle) : Prop :=
  Allowed x before event ∧ advance x before event = some after

/-- Neither the size nor any byte at the data of another handle has changed. -/
structure LeavesOthers (x : Handle) (before after : State Handle) : Prop where
  sizes :
    ∀ other,
      other ≠ x →
      xsSize (after.xs (some other)) = xsSize (before.xs (some other))
  bytes :
    ∀ other offset length,
      other ≠ x →
      after.read (xsData after (some other)) offset length =
        before.read (xsData before (some other)) offset length

/-- An event that is a call of `xs_tok_r` leaves the other handles alone. -/
def TokenLeavesOthers
    (x : Handle)
    (before : Tokenisation Handle)
    (event : Event Handle)
    (after : Tokenisation Handle) : Prop :=
  match event with
  | .meanwhile _ => True
  | _ => LeavesOthers x before.state after.state

/-- A later call cuts off a token while another handle shares the buffer of `x`. -/
def CutsShared (x : Handle) (world : Tokenisation Handle) : Event Handle → Prop
  | .later delim _ =>
      (∃ other, other ≠ x ∧ Refers world.state other (world.state.xs (some x)).ptr) ∧
        ∃ saveptr slen text position,
          world.saved = some saveptr ∧
            strlen world.state saveptr = some slen ∧
            world.state.read saveptr.place saveptr.offset slen = some text ∧
            CutAt delim.bytes text position
  | _ => False

/-! ## Who sees a change -/

omit [DecidableEq Handle] in
theorem LeavesOthers.refl (x : Handle) (state : State Handle) : LeavesOthers x state state where
  sizes := fun _ _ => rfl
  bytes := fun _ _ _ _ => rfl

omit [DecidableEq Handle] in
theorem LeavesOthers.trans
    {middle : State Handle}
    (first : LeavesOthers x state middle)
    (second : LeavesOthers x middle after) :
    LeavesOthers x state after where
  sizes := by
    intro other different
    rw [second.sizes other different, first.sizes other different]
  bytes := by
    intro other offset length different
    rw [second.bytes other offset length different, first.bytes other offset length different]

omit [DecidableEq Handle] in
/-- Other handles are left alone as long as they stay and so do the bytes they refer to. -/
theorem leavesOthers_of_blocks
    (others : ∀ other, other ≠ x → after.xs (some other) = state.xs (some other))
    (blocks :
      ∀ other address offset length,
        other ≠ x →
        Refers state other address →
        after.read (.block address) offset length = state.read (.block address) offset length) :
    LeavesOthers x state after where
  sizes := by
    intro other different
    rw [others other different]
  bytes := by
    intro other offset length different
    have same := others other different
    cases isPtr : (state.xs (some other)).isPtr with
    | false =>
        simp only [xsData, same, isPtr, Bool.false_eq_true, if_false, State.read]
    | true =>
        simp only [xsData, same, isPtr, if_true]
        exact blocks other _ offset length different ⟨isPtr, rfl⟩

omit [DecidableEq Handle] in
/-- A call that leaves all bytes alone leaves those of the other handles alone. -/
theorem Spares.leavesOthers
    (spares : Spares state after x)
    (accounted : Accounted state)
    (accountedAfter : Accounted after) :
    LeavesOthers x state after := by
  refine leavesOthers_of_blocks spares.others ?_
  rintro other address offset length different ⟨isPtr, rfl⟩
  have same := spares.others other different
  obtain ⟨_, former, backed⟩ := accounted.backed other isPtr
  obtain ⟨_, latter, backedAfter⟩ := accountedAfter.backed other (by rw [same]; exact isPtr)
  have live := backedAfter.live
  rw [same] at live
  have shape := spares.blocks _ former latter backed.live live
  simp only [State.read, backed.live, live]
  rw [shape]

/-- A write to a buffer that no other handle refers to. -/
theorem write_leavesOthers
    {address offset : Nat}
    {bytes : List UInt8}
    (wrote : state.write (.block address) offset bytes = some after)
    (apart : ∀ other, other ≠ x → ¬ Refers state other address) :
    LeavesOthers x state after := by
  obtain ⟨block, _, _, rfl⟩ := write_block_eq wrote
  refine leavesOthers_of_blocks (fun _ _ => rfl) ?_
  intro other used start length different refers
  have elsewhere : used ≠ address := by
    rintro rfl
    exact apart other different refers
  simp only [State.read, State.setBlock_other _ elsewhere]

/-- A NUL over another byte of a buffer is seen by every handle that refers to it. -/
theorem write_reaches
    {address offset : Nat}
    {byte : UInt8}
    {other : Handle}
    (wrote : state.write (.block address) offset [0] = some after)
    (former : state.read (.block address) offset 1 = some [byte])
    (nonzero : byte ≠ 0)
    (different : other ≠ x)
    (refers : Refers state other address) :
    ¬ LeavesOthers x state after := by
  intro leaves
  obtain ⟨block, _, inside, rfl⟩ := write_block_eq wrote
  have bytes := leaves.bytes other offset 1 different
  rw [xsData, State.setBlock_xs, xsData, if_pos refers.1, refers.2, former] at bytes
  simp only [State.read, State.setBlock_same] at bytes
  rw [if_pos (show offset + 1 ≤ block.length from inside),
    read_write_of_length List.length_singleton] at bytes
  have zero : 0 = byte := by simpa using bytes
  exact nonzero zero.symm

/-! ## Single events -/

/-- The counts are exact, and what is saved points into the buffer of `x`. -/
structure Tokenising (x : Handle) (world : Tokenisation Handle) : Prop where
  accounted : Accounted world.state
  isPtr : (world.state.xs (some x)).isPtr = true
  inside :
    ∀ saveptr,
      world.saved = some saveptr →
      saveptr.place = .block (world.state.xs (some x)).ptr

section Events

variable {before next : Tokenisation Handle}

omit [DecidableEq Handle] in
/-- A call on a handle with a buffer does not reach the flags of a short string. -/
theorem Elsewhere.sparesFlags
    {call : Call Handle}
    (elsewhere : Elsewhere state x call) :
    SparesFlags state call := by
  obtain ⟨_, isPtr | ⟨source, dest, rfl⟩⟩ := elsewhere
  · cases call with
    | op op =>
        cases op with
        | concat string former latter allocation =>
            intro notPtr
            rw [Call.target, notPtr] at isPtr
            simp at isPtr
        | _ => trivial
    | _ => trivial
  · trivial

/-- Calls elsewhere do not touch `x`. -/
theorem Tokenising.meanwhile
    {call : Call Handle}
    (tokenising : Tokenising x before)
    (step : TokenStep x before (.meanwhile call) next) :
    Tokenising x next := by
  obtain ⟨⟨permitted, elsewhere⟩, advanced⟩ := step
  obtain ⟨state, returned, same⟩ := Option.bind_eq_some_iff.mp advanced
  obtain rfl := Option.some.inj same
  obtain ⟨accounted, touches⟩ :=
    tokenising.accounted.step ⟨permitted, returned⟩ elsewhere.sparesFlags
  have kept := touches.others x elsewhere.1.symm
  exact ⟨accounted, by rw [kept]; exact tokenising.isPtr, by rw [kept]; exact tokenising.inside⟩

/-- The first call leaves the other handles alone. -/
theorem Tokenising.first
    {delim : CString}
    {uninitialised : Pointer Handle}
    {allocation : Allocation}
    (tokenising : Tokenising x before)
    (step : TokenStep x before (.first delim uninitialised allocation) next) :
    Tokenising x next ∧ LeavesOthers x before.state next.state := by
  obtain ⟨⟨unsaved, fresh⟩, advanced⟩ := step
  obtain ⟨token, returned, same⟩ := Option.bind_eq_some_iff.mp advanced
  obtain rfl := Option.some.inj same
  by_cases noDelim : delim.bytes = []
  · simp only [xsTokR, if_pos noDelim] at returned
    obtain rfl := Option.some.inj returned
    simp only [if_pos (Or.inl noDelim)]
    exact ⟨tokenising, LeavesOthers.refl x before.state⟩
  · obtain ⟨cowed, cow, editing, effect, saved⟩ :=
      tokenising.accounted.tok_cases noDelim fresh returned
    have isPtr : (cowed.xs (some x)).isPtr = true := by
      rw [cow.isPtr]
      exact tokenising.isPtr
    have own := editing.edits.pointer isPtr
    have place : xsData cowed (some x) = .block (cowed.xs (some x)).ptr := by
      rw [xsData, if_pos isPtr]
    refine ⟨⟨editing.accounted cow.accounted, by rw [own]; exact isPtr, ?_⟩, ?_⟩
    · intro saveptr isSaved
      rw [own]
      rcases saved with ⟨nothing, _⟩ | ⟨_, inside⟩
      · simp [nothing, unsaved] at isSaved
      · split at isSaved
        · rw [unsaved] at isSaved
          simp at isSaved
        · rw [← Option.some.inj isSaved, inside, place]
    · have separated := cow.spares.leavesOthers tokenising.accounted cow.accounted
      rcases effect with unchanged | ⟨offset, wrote⟩
      · rw [unchanged]
        exact separated
      · rw [place] at wrote
        refine separated.trans (write_leavesOthers wrote ?_)
        intro other different refers
        exact cow.alone _ other (Xs.held_of_isPtr isPtr) different (Xs.held_eq_some.mpr refers)

/-- What a later call does: at most one NUL is written through the saved pointer. -/
theorem later_cases
    {delim : CString}
    {allocation : Allocation}
    (step : TokenStep x before (.later delim allocation) next) :
    ∃ saveptr slen text,
      before.saved = some saveptr ∧
        strlen before.state saveptr = some slen ∧
        before.state.read saveptr.place saveptr.offset slen = some text ∧
        (∃ latter, next.saved = some latter ∧ latter.place = saveptr.place) ∧
        (((∀ position, ¬ CutAt delim.bytes text position) ∧ next.state = before.state) ∨
          ∃ position,
            CutAt delim.bytes text position ∧
              before.state.write saveptr.place (saveptr.offset + position) [0] =
                some next.state) := by
  obtain ⟨_, advanced⟩ := step
  obtain ⟨saveptr, saved, advanced⟩ := Option.bind_eq_some_iff.mp advanced
  obtain ⟨token, returned, same⟩ := Option.bind_eq_some_iff.mp advanced
  obtain rfl := Option.some.inj same
  have scanned : tokFrom before.state saveptr delim saveptr = some token := by
    simp only [xsTokR] at returned
    split at returned
    · simp at returned
    · exact returned
  obtain ⟨slen, found⟩ := strlen_of_tokFrom scanned
  obtain ⟨text, again, readable, same, effect, savedAfter⟩ :=
    @tokFrom_spec _ _ _ saveptr _ _ delim found
  obtain rfl : token = again := Option.some.inj (scanned.symm.trans same)
  refine ⟨saveptr, slen, text, saved, found, readable, ⟨token.saveptr, rfl, ?_⟩, effect⟩
  rcases savedAfter with ⟨_, unchanged⟩ | ⟨_, inside⟩
  · rw [unchanged]
  · exact inside

/-- A later call keeps the counts exact and the saved pointer inside the buffer. -/
theorem Tokenising.later
    {delim : CString}
    {allocation : Allocation}
    (tokenising : Tokenising x before)
    (step : TokenStep x before (.later delim allocation) next) :
    Tokenising x next := by
  obtain ⟨saveptr, slen, text, saved, found, readable, ⟨latter, savedAfter, stays⟩, effect⟩ :=
    later_cases step
  have place := tokenising.inside saveptr saved
  have inside : ∀ pointer, next.saved = some pointer →
      pointer.place = .block (before.state.xs (some x)).ptr := by
    intro pointer isSaved
    rw [← Option.some.inj (savedAfter.symm.trans isSaved), stays, place]
  rcases effect with ⟨_, unchanged⟩ | ⟨position, cut, wrote⟩
  · rw [← unchanged] at inside
    exact ⟨by rw [unchanged]; exact tokenising.accounted,
      by rw [unchanged]; exact tokenising.isPtr, inside⟩
  · have editing : Editing before.state next.state x := by
      refine ⟨?_, fun notPtr => ?_⟩
      · obtain ⟨_, limit, bound, below, _⟩ := strlen_spec found
        have textLength := length_of_read readable
        have position_lt := cut.eq_scanStop.2
        rw [place] at bound wrote
        obtain ⟨result, again, edits⟩ := write_block (some x) bound
          (show saveptr.offset + position + ([0] : List UInt8).length ≤ limit by
            simp only [List.length_singleton]
            omega)
        obtain rfl := Option.some.inj (again.symm.trans wrote)
        exact edits
      · rw [tokenising.isPtr] at notPtr
        simp at notPtr
    have own := editing.edits.pointer tokenising.isPtr
    rw [← own] at inside
    exact ⟨editing.accounted tokenising.accounted, by rw [own]; exact tokenising.isPtr, inside⟩

/-- A later call reaches into another handle exactly if it cuts a token off a shared buffer. -/
theorem Tokenising.later_leavesOthers
    {delim : CString}
    {allocation : Allocation}
    (tokenising : Tokenising x before)
    (step : TokenStep x before (.later delim allocation) next) :
    LeavesOthers x before.state next.state ↔
      ¬ CutsShared x before (.later delim allocation) := by
  obtain ⟨saveptr, slen, text, saved, found, readable, _, effect⟩ := later_cases step
  have place := tokenising.inside saveptr saved
  constructor
  · rintro leaves ⟨⟨other, different, refers⟩, saveptr', slen', text', position, saved', found',
      readable', cut⟩
    obtain rfl := Option.some.inj (saved.symm.trans saved')
    obtain rfl := Option.some.inj (found.symm.trans found')
    obtain rfl := Option.some.inj (readable.symm.trans readable')
    rcases effect with ⟨noCut, _⟩ | ⟨position', cut', wrote⟩
    · exact noCut position cut
    · obtain ⟨byte, delimits, here⟩ := cut'.delimiter
      have below := cut'.eq_scanStop.2
      have former := State.read_part readable
        (show position' + 1 ≤ slen by rw [← length_of_read readable]; omega)
      rw [here, place] at former
      rw [place] at wrote
      refine write_reaches wrote former ?_ different refers leaves
      rintro rfl
      exact delim.noNul delimits
  · intro apart
    rcases effect with ⟨_, unchanged⟩ | ⟨position, cut, wrote⟩
    · rw [unchanged]
      exact LeavesOthers.refl x before.state
    · rw [place] at wrote
      refine write_leavesOthers wrote ?_
      intro other different refers
      exact apart ⟨⟨other, different, refers⟩, saveptr, slen, text, position, saved, found,
        readable, cut⟩

end Events

/-! ## Whole tokenisations -/

/-- Every event keeps the counts exact and the saved pointer inside the buffer of `x`. -/
theorem Tokenising.step
    {before next : Tokenisation Handle}
    {event : Event Handle}
    (tokenising : Tokenising x before)
    (step : TokenStep x before event next) :
    Tokenising x next := by
  cases event with
  | first delim uninitialised allocation => exact (tokenising.first step).1
  | later delim allocation => exact tokenising.later step
  | meanwhile call => exact tokenising.meanwhile step

/-- A single event leaves the other handles alone unless it cuts a shared buffer. -/
theorem Tokenising.leavesOthers_iff
    {before next : Tokenisation Handle}
    {event : Event Handle}
    (tokenising : Tokenising x before)
    (step : TokenStep x before event next) :
    TokenLeavesOthers x before event next ↔ ¬ CutsShared x before event := by
  cases event with
  | first delim uninitialised allocation =>
      exact iff_of_true (tokenising.first step).2 id
  | later delim allocation =>
      exact tokenising.later_leavesOthers step
  | meanwhile call =>
      exact iff_of_true trivial id

/--
In any interleaving of the calls of a tokenisation of a heap string with copies and
with calls on other heap strings, no call of the tokenisation changes the size or the
bytes of another handle, exactly if no later call cuts off a token while another handle
shares the buffer.
-/
theorem tokens_leave_others_iff
    {calls : List (Call Handle)}
    {start : State Handle}
    (program : Run CallStep State.initial calls start)
    (spares :
      StepsSatisfy CallStep State.initial calls fun before call _ => SparesFlags before call)
    (isPtr : (start.xs (some x)).isPtr = true)
    (events : List (Event Handle)) :
    StepsSatisfy (TokenStep x) { state := start, saved := none } events (TokenLeavesOthers x) ↔
      StepsSatisfy (TokenStep x) { state := start, saved := none } events
        fun before event _ => ¬ CutsShared x before event := by
  have accounted : Accounted start := by
    refine spares.invariant program accounted_initial ?_
    intro before call after accounted step sparesHere
    exact (accounted.step step sparesHere).1
  have tokenising : Tokenising x { state := start, saved := none } :=
    ⟨accounted, isPtr, fun saveptr isSaved => by simp at isSaved⟩
  constructor
  · intro leaves
    refine leaves.mono tokenising (fun kept step _ => kept.step step) ?_
    intro before event after kept step leavesHere
    exact (kept.leavesOthers_iff step).mp leavesHere
  · intro apart
    refine apart.mono tokenising (fun kept step _ => kept.step step) ?_
    intro before event after kept step apartHere
    exact (kept.leavesOthers_iff step).mpr apartHere

/-- A long string of three words. -/
private def wordsCall : Call Bool :=
  .op (.new true ⟨List.replicate 16 97 ++ [32, 98, 32, 99], by decide⟩ ⟨4096, fun _ => 0⟩)

private def firstToken : Event Bool :=
  .first space ⟨.inline none, 0⟩ ⟨8192, fun _ => 0⟩

private def nextToken : Event Bool :=
  .later space ⟨8192, fun _ => 0⟩

/-- The outcome of an event is determined. -/
theorem TokenStep.functional
    {before first second : Tokenisation Handle}
    {event : Event Handle}
    (taken : TokenStep x before event first)
    (again : TokenStep x before event second) :
    first = second :=
  Option.some.inj (taken.2.symm.trans again.2)

theorem tokens_leave_others_words :
    ∃ start,
      Run CallStep State.initial [wordsCall] start ∧
        StepsSatisfy (TokenStep true) { state := start, saved := none } [firstToken, nextToken]
          (TokenLeavesOthers true) := by
  have cut : ∃ start middle, Run CallStep State.initial [wordsCall] start ∧
      (start.xs (some true)).isPtr = true ∧
      Run (TokenStep true) { state := start, saved := none } [firstToken] middle ∧
      (middle.state.xs (some false)).isPtr = false :=
    ⟨_, _, .extend .stop ⟨⟨rfl, by decide, rfl, by decide⟩, rfl⟩, rfl,
      .extend .stop ⟨⟨rfl, rfl, by decide⟩, rfl⟩, rfl⟩
  obtain ⟨start, middle, program, isPtr, run, unused⟩ := cut
  have spares : StepsSatisfy CallStep State.initial [wordsCall]
      fun before call _ => SparesFlags before call := StepsSatisfy.single fun _ _ => trivial
  refine ⟨start, program, (tokens_leave_others_iff program spares isPtr _).mpr ?_⟩
  have first : StepsSatisfy (TokenStep true) { state := start, saved := none } [firstToken]
      fun before event _ => ¬ CutsShared true before event := StepsSatisfy.single fun _ _ => id
  refine first.concat_at run TokenStep.functional ?_
  rintro after _ ⟨⟨other, different, refers, _⟩, _⟩
  obtain rfl : other = false := by simpa using different
  rw [unused] at refers
  simp at refers

/-- Between the first call and a later one the string is copied; the copy is cut as well. -/
theorem later_token_cuts_copy :
    ∃ start before after,
      Run CallStep State.initial [wordsCall] start ∧
        (start.xs (some true)).isPtr = true ∧
        Run (TokenStep true) { state := start, saved := none }
          [firstToken, .meanwhile (.op (.copy true false))] before ∧
        TokenStep true before nextToken after ∧
        ¬ LeavesOthers true before.state after.state := by
  refine ⟨_, _, _, .extend .stop ⟨⟨rfl, by decide, rfl, by decide⟩, rfl⟩, rfl,
    .extend (.extend .stop ⟨⟨rfl, rfl, by decide⟩, rfl⟩)
      ⟨⟨by exact rfl, by decide, Or.inr ⟨true, false, rfl⟩⟩, rfl⟩, ⟨trivial, rfl⟩, ?_⟩
  intro leaves
  have bytes := leaves.bytes false 18 1 (by decide)
  exact absurd bytes (by decide)

end Sysprog.Xstring
