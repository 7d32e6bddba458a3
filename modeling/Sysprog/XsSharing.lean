import Sysprog.XsGrowth
import Sysprog.XsTrimming

namespace Sysprog.Xstring

open ByteMemory CStrings Execution MachineWord

/-!
# Whether sharing can be observed through `xs_tok_r`

Two worlds with the same strings, one in which a buffer is shared and one in which it is
not, go through `xs_tok_r` and the same later calls.  `xs_cow` leaves a handle without
its size, and `xs_tok_r` does not set it again.
-/

variable
  {Handle : Type}
  [DecidableEq Handle]
  {state : State Handle}
  {contents : Handle → List UInt8}

/-! ## Later calls -/

/-- `xs_copy` as built with `DISABLE_COW`. -/
def xsCopyEager
    (state : State Handle)
    (src dest : Option Handle)
    (allocation : Allocation) : Option (State Handle) := do
  let state := state.assign dest (state.xs src)
  if (state.xs dest).isPtr then
    let state := refcountCreate state (2 ^ (state.xs src).capacity) allocation
    let state := state.assign dest ((state.xs dest).setPtr allocation.address)
    let bytes ← state.read (.block (state.xs src).ptr) 0 (xsSize (state.xs src) + 1)
    state.write (.block (state.xs dest).ptr) 0 bytes
  else
    return state

/-- A call after that of `xs_tok_r`. -/
inductive LaterCall (Handle : Type) where
  | concat (string former latter : Handle)
  | trim (handle : Handle) (trimset : CString)
  | copy (src dest : Handle)

/-- Run one call, in the build with copy-on-write or in the one without. -/
def laterCall
    (eager : Bool)
    (state : State Handle)
    (call : LaterCall Handle)
    (allocation : Allocation) : Option (State Handle) :=
  match call with
  | .concat string former latter =>
      xsConcat state (some string) (some former) (some latter) allocation
  | .trim handle trimset => xsTrim state (some handle) trimset allocation
  | .copy src dest =>
      if eager then
        xsCopyEager state (some src) (some dest) allocation
      else
        xsCopy state (some src) (some dest)

/--
Copies go to unused handles, and a string that is its own prefix or suffix is not edited
where these are read.
-/
def Proper (state : State Handle) : LaterCall Handle → Prop
  | .concat string former latter =>
      (former = string ∧ 0 < xsSize (state.xs (some string))) ∨ latter = string →
      xsSize (state.xs (some string)) + xsSize (state.xs (some former)) +
          xsSize (state.xs (some latter)) ≤
        xsCapacity (state.xs (some string)) →
      Shared state string
  | .trim _ _ => True
  | .copy _ dest => Unused state dest

/-- What a sequence of calls comes to: a state, or `none` where one call fails. -/
inductive Outcome (eager : Bool) :
    State Handle → List (LaterCall Handle) → Option (State Handle) → Prop where
  | done (state : State Handle) : Outcome eager state [] (some state)
  | failed
      {state : State Handle}
      {call : LaterCall Handle}
      {allocation : Allocation}
      (proper : Proper state call)
      (fresh : Fresh state allocation)
      (fails : laterCall eager state call allocation = none)
      (calls : List (LaterCall Handle)) :
      Outcome eager state (call :: calls) none
  | next
      {state after : State Handle}
      {call : LaterCall Handle}
      {allocation : Allocation}
      {calls : List (LaterCall Handle)}
      {outcome : Option (State Handle)}
      (proper : Proper state call)
      (fresh : Fresh state allocation)
      (returns : laterCall eager state call allocation = some after)
      (rest : Outcome eager after calls outcome) :
      Outcome eager state (call :: calls) outcome

/-- `xs_size` and the bytes at `xs_data` of every handle are the same, or both runs failed. -/
def SameView : Option (State Handle) → Option (State Handle) → Prop
  | none, none => True
  | some first, some second =>
      ∀ handle,
        xsSize (first.xs (some handle)) = xsSize (second.xs (some handle)) ∧
          first.read (xsData first (some handle)) 0 (xsSize (first.xs (some handle)) + 1) =
            second.read (xsData second (some handle)) 0 (xsSize (second.xs (some handle)) + 1)
  | _, _ => False

/-- How a world is built and what it calls `xs_tok_r` with. -/
structure World (Handle : Type) where
  eager : Bool
  state : State Handle
  saveptr : Pointer Handle
  allocation : Allocation

/-- After `xs_tok_r`, and after the same calls in both worlds, everything looks the same. -/
def HidesSharing
    (first second : World Handle)
    (x : Handle)
    (delim : CString)
    (calls : List (LaterCall Handle)) : Prop :=
  ∃ former latter,
    xsTokR first.state (some x) delim first.saveptr first.allocation = some former ∧
      xsTokR second.state (some x) delim second.saveptr second.allocation = some latter ∧
      SameView (some former.state) (some latter.state) ∧
      ∀ a b,
        Outcome first.eager former.state calls a →
        Outcome second.eager latter.state calls b →
        SameView a b

/-! ## What the later calls mean -/

/-- What a call does to the strings, where it does not fail. -/
def meaning (contents : Handle → List UInt8) :
    LaterCall Handle → Option (Handle → List UInt8)
  | .concat string former latter =>
      let whole := contents former ++ contents string ++ contents latter
      if whole.length < 2 ^ 32 then some (Function.update contents string whole) else none
  | .trim handle trimset =>
      if contents handle = [] ∨ ∃ byte ∈ contents handle, byte ∉ trimset.bytes then
        some (Function.update contents handle (trim trimset.bytes (contents handle)))
      else
        none
  | .copy src dest => some (Function.update contents dest (contents src))

/-- A state with these strings, or a failure that is meant. -/
def Represents : Option (State Handle) → Option (Handle → List UInt8) → Prop
  | none, none => True
  | some state, some contents => Valid state contents
  | _, _ => False

omit [DecidableEq Handle] in
/-- What represents the same strings looks the same. -/
theorem Represents.sameView
    {first second : Option (State Handle)}
    {strings : Option (Handle → List UInt8)}
    (former : Represents first strings)
    (latter : Represents second strings) :
    SameView first second := by
  cases first with
  | none =>
      cases second with
      | none => trivial
      | some state =>
          cases strings with
          | none => exact latter
          | some contents => exact former
  | some state =>
      cases second with
      | none =>
          cases strings with
          | none => exact former
          | some contents => exact latter
      | some other =>
          cases strings with
          | none => exact former.elim
          | some contents =>
              intro handle
              have here := Valid.holds former handle
              have there := Valid.holds latter handle
              rw [here.size, there.size]
              exact ⟨rfl, here.bytes.trans there.bytes.symm⟩

/-- `xs_copy` without copy-on-write copies the buffer. -/
private theorem copyEager_eq
    {source dest : Handle}
    {string : List UInt8}
    {exponent : Nat}
    {block : Block}
    {allocation : Allocation}
    (different : source ≠ dest)
    (fresh : Fresh state allocation)
    (onHeap :
      HeapString state.heap (state.xs (some source)) string (state.xs (some source)).ptr exponent
        block) :
    xsCopyEager state (some source) (some dest) allocation =
      some
        ((state.setBlock allocation.address
          (some
            { refcnt := 1
              data := ByteMemory.write allocation.garbage 0 (string ++ [0])
              length := 2 ^ exponent + 7 })).assign (some dest)
          ((state.xs (some source)).setPtr allocation.address)) := by
  have apart := onHeap.backed.ptr_ne fresh.free
  have fits := onHeap.fits
  have length := onHeap.length
  have kept : ∀ state' : State Handle, ∀ x,
      (state'.assign (some dest) x).xs (some source) = state'.xs (some source) :=
    fun state' x => state'.assign_other (by simpa using different)
  have readable : (((state.assign (some dest) (state.xs (some source))).setBlock
      allocation.address
      (some { refcnt := 1, data := allocation.garbage, length := 2 ^ exponent + 7 })).assign
      (some dest) ((state.xs (some source)).setPtr allocation.address)).read
      (.block (state.xs (some source)).ptr) 0 (string.length + 1) = some (string ++ [0]) := by
    simp only [State.read, State.assign_heap, State.setBlock_other _ apart, onHeap.live]
    rw [if_pos (by omega), onHeap.bytes]
  simp only [xsCopyEager, State.assign_same, onHeap.onHeap.isPtr, if_true, refcountCreate,
    State.setBlock_xs, kept, onHeap.onHeap.capacity, onHeap.xsSize_eq, readable,
    Option.bind_eq_bind, Option.bind_some, Xs.ptr_setPtr _ fresh.fits, State.write,
    State.assign_heap, State.setBlock_same]
  rw [if_pos (by simp only [List.length_append, List.length_singleton]; omega)]
  simp only [← State.setBlock_assign, State.setBlock_setBlock, State.assign_assign]

/-- `xs_copy` without copy-on-write gives an unused handle a string of its own. -/
theorem Valid.copyEager
    {allocation : Allocation}
    (valid : Valid state contents)
    (source dest : Handle)
    (unused : (state.xs (some dest)).isPtr = false)
    (fresh : Fresh state allocation) :
    ∃ result,
      xsCopyEager state (some source) (some dest) allocation = some result ∧
        Valid result (Function.update contents dest (contents source)) := by
  cases isPtr : (state.xs (some source)).isPtr with
  | false =>
      have inPlace := (valid.strings source).inlineString isPtr
      refine ⟨_, ?_, valid.assign_inline unused inPlace⟩
      simp [xsCopyEager, isPtr]
  | true =>
      have different : source ≠ dest := by
        rintro rfl
        rw [isPtr] at unused
        simp at unused
      obtain ⟨exponent, block, onHeap⟩ := (valid.strings source).heapString isPtr
      have detached := valid.detached_of_free fresh.free
      obtain ⟨moved, size⟩ := onHeap.onHeap.setPtr fresh.fits
      refine ⟨_, copyEager_eq different fresh onHeap,
        (valid.setBlock detached _).assign_block unused detached
          ⟨moved, onHeap.atLeast, onHeap.atMost, size.trans onHeap.size, onHeap.fits,
            State.setBlock_same _ _ _, rfl, ?_⟩
          rfl⟩
      simp only
      exact read_write_of_length List.length_append

/-- `ilog2` is given 32 bits. -/
theorem ilog2_lt (len : Nat) : ilog2 len < 32 := by
  have bound : len % 2 ^ 32 < 2 ^ 32 := Nat.mod_lt _ (by decide)
  by_cases nothing : len % 2 ^ 32 = 0
  · rw [ilog2, nothing]
    decide
  · exact (Nat.log2_lt nothing).mpr bound

/-- The buffer of an empty local variable, whatever length it is asked for. -/
private theorem grow_extent
    {grown : State Handle}
    {len : Nat}
    {allocation : Allocation}
    (fresh : Fresh state allocation)
    (long : 15 < len)
    (grew : xsGrow (state.assign none Xs.literalEmpty) none len allocation = some grown) :
    grown.extent (xsData grown none) = some (2 ^ (ilog2 len + 1) + 7) := by
  have empty : (state.assign none Xs.literalEmpty).xs none = Xs.literalEmpty :=
    State.assign_same _
  have notPtr : Xs.literalEmpty.isPtr = false := inline_literalEmpty.1.not_isPtr
  have grows : ¬ len ≤ xsCapacity Xs.literalEmpty := by
    rw [inline_literalEmpty.1.xsCapacity_eq]
    omega
  have below := ilog2_lt len
  simp only [xsGrow, empty, if_neg grows, notPtr, Bool.false_eq_true, if_false,
    Option.bind_eq_bind, Option.bind_eq_some_iff] at grew
  obtain ⟨filled, wrote, assigned⟩ := grew
  obtain rfl := Option.some.inj assigned
  have extent := (extent_of_write wrote).2 (.block allocation.address)
  obtain ⟨block, live, _, rfl⟩ := write_block_eq wrote
  obtain ⟨onHeap, _⟩ :=
    @onHeap_regrown Xs.literalEmpty _ (ilog2 len + 1) (by rw [Xs.word_literalEmpty]; decide)
      fresh.fits (by omega)
  rw [xsData, State.assign_same]
  simp only [State.setBlock_xs, refcountCreate, empty] at extent ⊢
  rw [← regrown, if_pos onHeap.isPtr, onHeap.ptr]
  refine extent.trans ?_
  simp [State.extent]

/-- The exponent of a length beyond 32 bits is that of what is left of it in 32 bits. -/
theorem ilog2_wraps
    {len : Nat}
    (long : 2 ^ 32 ≤ len) :
    2 ^ (ilog2 len + 1) + 7 < len := by
  have bound : len % 2 ^ 32 < 2 ^ 32 := Nat.mod_lt _ (by decide)
  have split := Nat.div_add_mod len (2 ^ 32)
  have whole : 1 ≤ len / 2 ^ 32 := (Nat.one_le_div_iff (by decide)).mpr long
  rw [ilog2, Nat.pow_succ]
  generalize len % 2 ^ 32 = rest at bound split
  generalize len / 2 ^ 32 = turns at split whole
  by_cases nothing : rest = 0
  · subst nothing
    have zero : Nat.log2 0 = 0 := by decide
    rw [zero]
    omega
  · have below : rest.log2 < 32 := (Nat.log2_lt nothing).mpr bound
    have least := Nat.log2_self_le nothing
    have most : 2 ^ rest.log2 ≤ 2 ^ 31 := Nat.pow_le_pow_right (by decide) (by omega)
    omega

/-- A concatenation of `2 ^ 32` bytes or more leaves the buffer it is given. -/
theorem concat_overruns
    {string former latter : Handle}
    {allocation : Allocation}
    (valid : Valid state contents)
    (long :
      2 ^ 32 ≤
        xsSize (state.xs (some string)) + xsSize (state.xs (some former)) +
          xsSize (state.xs (some latter)))
    (fresh : Fresh state allocation) :
    xsConcat state (some string) (some former) (some latter) allocation = none := by
  have narrow := (valid.strings string).capacity_lt
  rw [Option.eq_none_iff_forall_ne_some]
  intro result returned
  simp only [xsConcat, if_neg (show ¬ xsSize (state.xs (some string)) +
    xsSize (state.xs (some former)) + xsSize (state.xs (some latter)) ≤
      xsCapacity (state.xs (some string)) by omega), Option.bind_eq_bind,
    Option.bind_eq_some_iff] at returned
  obtain ⟨grown, grew, moved, _, shifted, wroteString, front, _, fronted, wroteFormer, back,
    readBack, complete, wroteLatter, _⟩ := returned
  obtain ⟨⟨limit, bound, inside⟩, _⟩ := extent_of_write wroteLatter
  rw [(extent_of_write wroteFormer).2, (extent_of_write wroteString).2,
    grow_extent fresh (by omega) grew] at bound
  have tooSmall := ilog2_wraps long
  have length := length_of_read readBack
  have same := Option.some.inj bound
  omega

/-- Every proper call does to the strings what it means. -/
theorem Valid.laterCall
    {call : LaterCall Handle}
    {allocation : Allocation}
    (valid : Valid state contents)
    (eager : Bool)
    (proper : Proper state call)
    (fresh : Fresh state allocation) :
    Represents (Xstring.laterCall eager state call allocation) (meaning contents call) := by
  cases call with
  | concat string former latter =>
      have sizeEq := (valid.strings string).xsSize_eq
      have presEq := (valid.strings former).xsSize_eq
      have sufsEq := (valid.strings latter).xsSize_eq
      have total : (contents former ++ contents string ++ contents latter).length =
          xsSize (state.xs (some string)) + xsSize (state.xs (some former)) +
            xsSize (state.xs (some latter)) := by
        rw [sizeEq, presEq, sufsEq]
        simp only [List.length_append]
        omega
      simp only [Xstring.laterCall, meaning, total]
      by_cases short : xsSize (state.xs (some string)) + xsSize (state.xs (some former)) +
          xsSize (state.xs (some latter)) < 2 ^ 32
      · have apart : (former = string ∧ contents string ≠ []) ∨ latter = string →
            xsSize (state.xs (some string)) + xsSize (state.xs (some former)) +
                xsSize (state.xs (some latter)) ≤
              xsCapacity (state.xs (some string)) →
            Shared state string := by
          intro own
          refine proper (own.imp (And.imp_right ?_) id)
          rw [sizeEq]
          exact List.length_pos_iff.mpr
        obtain ⟨result, returned, after⟩ := valid.concat apart short fresh
        rw [if_pos short, returned]
        exact after
      · rw [if_neg short, concat_overruns valid (Nat.le_of_not_lt short) fresh]
        trivial
  | trim handle trimset =>
      simp only [Xstring.laterCall, meaning]
      by_cases kept : contents handle = [] ∨ ∃ byte ∈ contents handle, byte ∉ trimset.bytes
      · obtain ⟨result, returned, after⟩ := valid.trim handle trimset kept fresh
        rw [if_pos kept, returned]
        exact after
      · rw [if_neg kept]
        push Not at kept
        rw [trim_overruns valid kept.1 kept.2 fresh]
        trivial
  | copy source dest =>
      cases eager with
      | true =>
          obtain ⟨result, returned, after⟩ := valid.copyEager source dest proper fresh
          simp only [Xstring.laterCall, meaning, if_true, returned]
          exact after
      | false =>
          obtain ⟨result, returned, after⟩ := valid.copy source dest proper
          simp only [Xstring.laterCall, meaning, Bool.false_eq_true, if_false, returned]
          exact after

/-- A sequence of calls does to the strings what its calls mean, one after the other. -/
theorem Outcome.represents
    {eager : Bool}
    {calls : List (LaterCall Handle)}
    {outcome : Option (State Handle)}
    (run : Outcome eager state calls outcome)
    (valid : Valid state contents) :
    Represents outcome (calls.foldlM meaning contents) := by
  induction run generalizing contents with
  | done state => exact valid
  | failed proper fresh fails calls =>
      have meant := valid.laterCall eager proper fresh
      rw [fails] at meant
      rw [List.foldlM_cons]
      cases means : meaning contents _ with
      | none =>
          trivial
      | some strings =>
          rw [means] at meant
          exact meant.elim
  | next proper fresh returns rest inductionHypothesis =>
      have meant := valid.laterCall eager proper fresh
      rw [returns] at meant
      rw [List.foldlM_cons]
      cases means : meaning contents _ with
      | none =>
          rw [means] at meant
          exact meant.elim
      | some strings =>
          rw [means] at meant
          exact inductionHypothesis meant

/-! ## The call of `xs_tok_r` -/

section Token

variable
  {cowed : State Handle}
  {x : Handle}
  {delim : CString}
  {saveptr : Pointer Handle}
  {allocation : Allocation}
  {token : Token Handle}

/-- `xs_free` leaves the other handles. -/
private theorem free_other
    {slot other : Option Handle}
    {result : State Handle}
    (freed : xsFree state slot = some result)
    (different : other ≠ slot) :
    result.xs other = state.xs other := by
  simp only [xsFree] at freed
  split at freed
  · simp only [Option.bind_eq_bind, Option.bind_eq_some_iff] at freed
    obtain ⟨block, _, assigned⟩ := freed
    rw [← Option.some.inj assigned, State.assign_other _ different]
    split <;> rfl
  · rw [← Option.some.inj freed, State.assign_other _ different]

/-- `xs_cow` leaves a handle that shared its buffer without a size. -/
theorem cow_unsized
    (valid : Valid state contents)
    (fresh : Fresh state allocation)
    (shared : Shared state x)
    (copied : xsCow state (some x) allocation = some cowed) :
    (cowed.xs (some x)).isPtr = true ∧ (cowed.xs (some x)).size = 0 := by
  obtain ⟨isPtr, _⟩ := valid.exists_sharer shared
  obtain ⟨exponent, block, onHeap⟩ := (valid.strings x).heapString isPtr
  have narrow : 2 ^ exponent ≤ 2 ^ 32 := Nat.pow_le_pow_right (by decide) onHeap.atMost
  have wide : 2 ^ 5 ≤ 2 ^ exponent := Nat.pow_le_pow_right (by decide) onHeap.atLeast
  obtain ⟨grown, fill, grew, prepared⟩ :=
    grow_prepared fresh (show 15 < 2 ^ exponent - 1 by omega) (by omega)
  obtain ⟨count, counted, several⟩ := shared
  have kept : (state.assign none Xs.literalEmpty).xs (some x) = state.xs (some x) :=
    State.assign_other _ (by simp)
  simp only [xsCow, counted, Option.bind_eq_bind, Option.bind_some, if_pos several, kept,
    onHeap.onHeap.xsCapacity_eq, grew, prepared.xsData_eq, Option.bind_eq_some_iff] at copied
  obtain ⟨bytes, _, filled, wrote, freed, released, assigned⟩ := copied
  obtain ⟨_, _, _, rfl⟩ := write_block_eq wrote
  rw [← Option.some.inj assigned, State.assign_same, free_other released (by simp),
    State.setBlock_xs]
  exact ⟨prepared.onHeap.isPtr, prepared.unsized⟩

/-- Cutting a token off a buffer leaves all handles. -/
theorem tokFrom_xs
    (isPtr : (cowed.xs (some x)).isPtr = true)
    (returned :
      tokFrom cowed { place := xsData cowed (some x), offset := 0 } delim saveptr = some token) :
    token.state.xs = cowed.xs := by
  obtain ⟨slen, found⟩ := strlen_of_tokFrom returned
  obtain ⟨text, again, _, same, effect, _⟩ := @tokFrom_spec _ _ _ saveptr _ _ delim found
  obtain rfl := Option.some.inj (same.symm.trans returned)
  rcases effect with ⟨_, unchanged⟩ | ⟨position, _, wrote⟩
  · rw [unchanged]
  · rw [xsData, if_pos isPtr] at wrote
    obtain ⟨_, _, _, result⟩ := write_block_eq wrote
    rw [result, State.setBlock_xs]

/-- The size of a heap string behind `xs_tok_r`: none is left if the buffer was shared. -/
theorem tok_xsSize
    (valid : Valid state contents)
    (fresh : Fresh state allocation)
    (isPtr : (state.xs (some x)).isPtr = true)
    (occupied : delim.bytes ≠ [])
    (returned : xsTokR state (some x) delim saveptr allocation = some token) :
    (Shared state x → xsSize (token.state.xs (some x)) = 0) ∧
      (¬ Shared state x → xsSize (token.state.xs (some x)) = (contents x).length) := by
  obtain ⟨cowed, data, copied, separated⟩ := valid.cow x fresh
  simp only [xsTokR, if_neg occupied, copied, Option.bind_eq_bind, Option.bind_some] at returned
  constructor
  · intro shared
    obtain ⟨cowedPtr, unsized⟩ := cow_unsized valid fresh shared copied
    rw [tokFrom_xs cowedPtr returned, xsSize, if_pos cowedPtr, unsized]
  · intro unshared
    obtain rfl := cow_unshared unshared copied
    rw [tokFrom_xs isPtr returned, (valid.strings x).xsSize_eq]

/-- A handle that owns its bytes and has the size of its string holds it. -/
private theorem Owned.complete
    {place : Place Handle}
    {capacity : Nat}
    {data : Memory}
    {string : List UInt8}
    (owned : Owned state contents x place capacity data)
    (size : xsSize (state.xs (some x)) = string.length)
    (fits : string.length ≤ capacity)
    (flags : place = .inline (some x) → (data 15).toNat < 16)
    (bytes : ByteMemory.read data 0 (string.length + 1) = string ++ [0]) :
    Valid state (Function.update contents x string) := by
  obtain ⟨others, own⟩ := owned
  have unused : ((state.assign (some x) Xs.literalEmpty).xs (some x)).isPtr = false := by
    rw [State.assign_same]
    exact inline_literalEmpty.1.not_isPtr
  have same : state.assign (some x) (state.xs (some x)) = state := by
    simp [State.assign]
  rcases own with
    ⟨rfl, rfl, rfl⟩ |
      ⟨address, exponent, block, rfl, onHeap, atLeast, atMost, rfl, live, length, single, rfl,
        alone⟩
  · have inline : Inline (state.xs (some x)) := Inline.of_lastByte (flags rfl)
    rw [inline.xsSize_eq] at size
    have space : (state.xs (some x)).spaceLeft < 16 := Nat.mod_lt _ (by decide)
    have completed := others.assign_inline unused ⟨inline, by omega, bytes⟩
    rw [State.assign_assign, Function.update_idem, same] at completed
    exact completed
  · have positive := Nat.two_pow_pos exponent
    rw [onHeap.xsSize_eq] at size
    have completed := others.assign_block unused (detached_alone alone)
      ⟨onHeap, atLeast, atMost, size, by omega, live, length, bytes⟩ single
    rw [State.assign_assign, Function.update_idem, same] at completed
    exact completed

/-- Without delimiters, and in an empty string, `xs_tok_r` leaves all strings. -/
theorem tok_keeps
    (valid : Valid state contents)
    (fresh : Fresh state allocation)
    (nothing : delim.bytes = [] ∨ contents x = [])
    (saveptr : Pointer Handle) :
    ∃ token,
      xsTokR state (some x) delim saveptr allocation = some token ∧
        Valid token.state contents := by
  by_cases noDelim : delim.bytes = []
  · exact ⟨_, if_pos noDelim, valid⟩
  have empty := nothing.resolve_left noDelim
  obtain ⟨cowed, data, copied, separated⟩ := valid.cow x fresh
  have size : xsSize (cowed.xs (some x)) = ([] : List UInt8).length := by
    by_cases shared : Shared state x
    · obtain ⟨isPtr, unsized⟩ := cow_unsized valid fresh shared copied
      rw [xsSize, if_pos isPtr, unsized]
      rfl
    · obtain rfl := cow_unshared shared copied
      rw [(valid.strings x).xsSize_eq, empty]
  have bytes := separated.bytes
  rw [empty] at bytes
  have readable := separated.owned.read
    (show 0 + (([] : List UInt8).length + 1) ≤ _ + 1 by simp)
  rw [bytes] at readable
  have scanned : Scanned delim.bytes [] [] [] [] :=
    ⟨rfl, by simp, by simp, by simp, fun _ => rfl⟩
  have returned := (@tokFrom_scanned _ cowed { place := xsData cowed (some x), offset := 0 } _ []
    [] [] [] delim readable (by simp) scanned saveptr).1 rfl
  refine ⟨{ state := cowed, saveptr := saveptr, token := none }, ?_, ?_⟩
  · simp only [xsTokR, if_neg noDelim, copied, Option.bind_eq_bind, Option.bind_some]
    exact returned
  · have after := separated.owned.complete size (by simp) separated.flags bytes
    rw [← empty, Function.update_eq_self] at after
    exact after

end Token

/-! ## Both worlds -/

section Worlds

variable
  {first second : World Handle}
  {x : Handle}
  {delim : CString}

/-- With a token to look for in a string that is not empty, the sizes differ at once. -/
theorem sharing_shows
    (validFirst : Valid first.state contents)
    (validSecond : Valid second.state contents)
    (freshFirst : Fresh first.state first.allocation)
    (freshSecond : Fresh second.state second.allocation)
    (shared : Shared first.state x)
    (isPtr : (second.state.xs (some x)).isPtr = true)
    (unshared : ¬ Shared second.state x)
    (occupied : delim.bytes ≠ [])
    (nonempty : contents x ≠ [])
    (calls : List (LaterCall Handle)) :
    ¬ HidesSharing first second x delim calls := by
  rintro ⟨former, latter, returnedFirst, returnedSecond, same, _⟩
  have firstPtr := (validFirst.exists_sharer shared).1
  have lost := (tok_xsSize validFirst freshFirst firstPtr occupied returnedFirst).1 shared
  have kept := (tok_xsSize validSecond freshSecond isPtr occupied returnedSecond).2 unshared
  have sizes := (same x).1
  rw [lost, kept] at sizes
  exact nonempty (List.length_eq_zero_iff.mp sizes.symm)

/--
A handle that shares its buffer and an unshared heap string of the same bytes look the
same behind `xs_tok_r` and any later calls, exactly if there is no delimiter or the
string is empty.
-/
theorem hides_sharing_iff
    (validFirst : Valid first.state contents)
    (validSecond : Valid second.state contents)
    (freshFirst : Fresh first.state first.allocation)
    (freshSecond : Fresh second.state second.allocation)
    (shared : Shared first.state x)
    (isPtr : (second.state.xs (some x)).isPtr = true)
    (unshared : ¬ Shared second.state x)
    (delim : CString)
    (calls : List (LaterCall Handle)) :
    HidesSharing first second x delim calls ↔ delim.bytes = [] ∨ contents x = [] := by
  constructor
  · intro hides
    by_contra shows
    push Not at shows
    exact sharing_shows validFirst validSecond freshFirst freshSecond shared isPtr unshared
      shows.1 shows.2 calls hides
  · intro nothing
    obtain ⟨former, returnedFirst, validFormer⟩ :=
      tok_keeps validFirst freshFirst nothing first.saveptr
    obtain ⟨latter, returnedSecond, validLatter⟩ :=
      tok_keeps validSecond freshSecond nothing second.saveptr
    refine ⟨former, latter, returnedFirst, returnedSecond, ?_, ?_⟩
    · have same : Represents (some former.state) (some contents) := validFormer
      exact same.sameView validLatter
    · intro a b runFirst runSecond
      exact (runFirst.represents validFormer).sameView (runSecond.represents validLatter)

end Worlds

/-- The world of a copy, with room for what `xs_tok_r` allocates. -/
private def copyWorld (eager : Bool) (state : State Bool) : World Bool where
  eager := eager
  state := state
  saveptr := ⟨.inline none, 0⟩
  allocation := ⟨12288, fun _ => 0⟩

/-- A long string and a copy of it, with its buffer shared and with one of its own. -/
private theorem copies_of_letters :
    ∃ start shared own contents,
      xsNew (State.initial : State Bool) (some true) letters ⟨4096, fun _ => 0⟩ = some start ∧
        xsCopy start (some true) (some false) = some shared ∧
        xsCopyEager start (some true) (some false) ⟨8192, fun _ => 0⟩ = some own ∧
        Valid shared contents ∧
        Valid own contents ∧
        contents false = letters.bytes ∧
        Fresh shared (copyWorld false shared).allocation ∧
        Fresh own (copyWorld true own).allocation ∧
        Shared shared false ∧
        (own.xs (some false)).isPtr = true ∧
        ¬ Shared own false := by
  have built : ∃ start shared own,
      xsNew (State.initial : State Bool) (some true) letters ⟨4096, fun _ => 0⟩ = some start ∧
        xsCopy start (some true) (some false) = some shared ∧
        xsCopyEager start (some true) (some false) ⟨8192, fun _ => 0⟩ = some own ∧
        (start.xs (some false)).isPtr = false ∧
        Fresh start ⟨8192, fun _ => 0⟩ ∧
        Fresh shared (copyWorld false shared).allocation ∧
        Fresh own (copyWorld true own).allocation ∧
        refcountGet shared (some false) = some 2 ∧
        (own.xs (some false)).isPtr = true ∧
        refcountGet own (some false) = some 1 :=
    ⟨_, _, _, rfl, rfl, rfl, rfl, ⟨rfl, by decide⟩, ⟨rfl, by decide⟩, ⟨rfl, by decide⟩, rfl, rfl,
      rfl⟩
  obtain ⟨start, shared, own, created, copied, copiedEagerly, unused, fresh, freshShared, freshOwn,
    two, isPtr, one⟩ := built
  have valid := valid_alone created (by decide)
  obtain ⟨_, again, validShared⟩ := valid.copy true false unused
  obtain rfl := Option.some.inj (again.symm.trans copied)
  obtain ⟨_, againEagerly, validOwn⟩ := valid.copyEager true false unused fresh
  obtain rfl := Option.some.inj (againEagerly.symm.trans copiedEagerly)
  refine ⟨start, _, _, _, created, copied, copiedEagerly, validShared, validOwn, rfl, freshShared,
    freshOwn, ⟨2, two, by decide⟩, isPtr, ?_⟩
  rintro ⟨count, counted, several⟩
  rw [one] at counted
  obtain rfl := Option.some.inj counted
  exact absurd several (by decide)

theorem hides_sharing_letters :
    ∃ start shared own,
      xsNew (State.initial : State Bool) (some true) letters ⟨4096, fun _ => 0⟩ = some start ∧
        xsCopy start (some true) (some false) = some shared ∧
        xsCopyEager start (some true) (some false) ⟨8192, fun _ => 0⟩ = some own ∧
        HidesSharing (copyWorld false shared) (copyWorld true own) false ⟨[], by decide⟩
          [.trim false space, .concat true false false] := by
  obtain ⟨start, shared, own, contents, created, copied, copiedEagerly, validShared, validOwn, _,
    freshShared, freshOwn, shares, isPtr, alone⟩ := copies_of_letters
  refine ⟨start, shared, own, created, copied, copiedEagerly, ?_⟩
  have hides :=
    @hides_sharing_iff _ _ contents (copyWorld false shared) (copyWorld true own) false validShared
      validOwn freshShared freshOwn shares isPtr alone ⟨[], by decide⟩
      [.trim false space, .concat true false false]
  exact hides.mpr (Or.inl rfl)

/-- `xs_tok_r` on a copy of a string without blanks loses the size if the buffer is shared. -/
theorem shared_copy_loses_size :
    ∃ start shared own contents,
      xsNew (State.initial : State Bool) (some true) letters ⟨4096, fun _ => 0⟩ = some start ∧
        xsCopy start (some true) (some false) = some shared ∧
        xsCopyEager start (some true) (some false) ⟨8192, fun _ => 0⟩ = some own ∧
        Valid shared contents ∧
        Valid own contents ∧
        contents false = letters.bytes ∧
        ¬ HidesSharing (copyWorld false shared) (copyWorld true own) false space [] := by
  obtain ⟨start, shared, own, contents, created, copied, copiedEagerly, validShared, validOwn,
    string, freshShared, freshOwn, shares, isPtr, alone⟩ := copies_of_letters
  have nonempty : contents false ≠ [] := by
    rw [string]
    decide
  exact ⟨start, shared, own, contents, created, copied, copiedEagerly, validShared, validOwn, string,
    @sharing_shows _ _ contents (copyWorld false shared) (copyWorld true own) false space
      validShared validOwn freshShared freshOwn shares isPtr alone (by decide) nonempty []⟩

end Sysprog.Xstring
