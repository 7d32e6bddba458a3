import Sysprog.XsLifetimes

namespace Sysprog.Xstring

open ByteMemory CStrings Execution

/-!
# What the tokens of a string are

A first call of `xs_tok_r` with a handle, then calls with a null pointer and what was
saved.  What is left to scan at the saved pointer is the text behind the last token, and
tokens that were returned lie in front of it.
-/

variable
  {Handle : Type}
  [DecidableEq Handle]
  {state : State Handle}
  {contents : Handle → List UInt8}
  {x : Handle}

/-! ## Calls and runs -/

/-- The calls of `xs_tok_r` on `x`, one after the other. -/
def tokenCall
    (state : State Handle)
    (x : Handle)
    (delim : CString)
    (saveptr : Pointer Handle)
    (allocation : Allocation) : Nat → Option (Token Handle)
  | 0 => xsTokR state (some x) delim saveptr allocation
  | n + 1 => do
      let token ← tokenCall state x delim saveptr allocation n
      xsTokR token.state none delim token.saveptr allocation

/-- The maximal runs of bytes that are no delimiters, in order. -/
def runs (delim text : List UInt8) : List (List UInt8) :=
  (text.splitOnP fun byte => decide (byte ∈ delim)).filter fun run => !run.isEmpty

/-- What is found at a pointer up to the first NUL. -/
def Reads (state : State Handle) (p : Pointer Handle) (text : List UInt8) : Prop :=
  state.read p.place p.offset (text.length + 1) = some (text ++ [0])

/-- Leading delimiters belong to no run. -/
private theorem runs_append
    {delim lead : List UInt8}
    (leads : ∀ byte ∈ lead, byte ∈ delim)
    (text : List UInt8) :
    runs delim (lead ++ text) = runs delim text := by
  induction lead with
  | nil =>
      rfl
  | cons byte others inductionHypothesis =>
      rw [List.forall_mem_cons] at leads
      have first : ([] ++ byte :: (others ++ text)).splitOnP (fun byte => decide (byte ∈ delim)) =
          [] :: (others ++ text).splitOnP fun byte => decide (byte ∈ delim) :=
        List.splitOnP_append_cons_of_forall_mem (by simp) byte (decide_eq_true leads.1) _
      rw [List.nil_append] at first
      rw [List.cons_append, runs, first]
      exact inductionHypothesis leads.2

/-- The first run is the token, and the others are behind the delimiter that ends it. -/
theorem Scanned.runs_eq
    {delim text lead token rest : List UInt8}
    (scanned : Scanned delim text lead token rest) :
    (token = [] → runs delim text = []) ∧
      (token ≠ [] → runs delim text = token :: runs delim rest.tail) := by
  obtain ⟨rfl, leads, tokens, delimits, occupied⟩ := scanned
  rw [runs_append leads]
  have outside : ∀ byte ∈ token, decide (byte ∈ delim) = false := by simpa using tokens
  constructor
  · rintro rfl
    rw [occupied rfl]
    rfl
  · intro noToken
    cases rest with
    | nil =>
        rw [List.append_nil, runs, List.splitOnP_eq_singleton outside]
        simpa [runs] using noToken
    | cons byte others =>
        have inside : decide (byte ∈ delim) = true := decide_eq_true (delimits byte rfl)
        rw [runs, List.splitOnP_append_cons_of_forall_mem outside byte inside,
          List.filter_cons_of_pos (by simpa using noToken)]
        rfl

/-! ## One call -/

/-- The text left at a pointer into bytes that belong to `x` alone. -/
structure Scanning
    (state : State Handle)
    (contents : Handle → List UInt8)
    (x : Handle)
    (p : Pointer Handle)
    (rest : List UInt8) : Prop where
  owned :
    ∃ capacity data,
      Owned state contents x p.place capacity data ∧
        p.offset + rest.length ≤ capacity ∧
        ByteMemory.read data p.offset (rest.length + 1) = rest ++ [0]
  noNul : (0 : UInt8) ∉ rest

/-- A token in front of the text that is left, or with nothing left behind it. -/
structure Returned
    (state : State Handle)
    (p : Pointer Handle)
    (rest : List UInt8)
    (pointer : Pointer Handle)
    (text : List UInt8) : Prop where
  reads : Reads state pointer text
  place : pointer.place = p.place
  behind : pointer.offset + text.length < p.offset ∨ rest = []

/-- The other handles hold their strings while one owns its bytes. -/
theorem Owned.holds_other
    {place : Place Handle}
    {capacity : Nat}
    {data : Memory}
    {other : Handle}
    (owned : Owned state contents x place capacity data)
    (different : other ≠ x) :
    Holds state other (contents other) := by
  refine ⟨?_, owned.read_other different rfl⟩
  have stores := owned.others.strings other
  rw [Function.update_of_ne different, State.assign_other _ (by simpa using different)] at stores
  exact stores.xsSize_eq

namespace Scanning

variable {p : Pointer Handle} {rest : List UInt8}

/-- The text that is left can be read. -/
theorem reads (scanning : Scanning state contents x p rest) : Reads state p rest := by
  obtain ⟨capacity, data, owned, inside, bytes⟩ := scanning.owned
  rw [Reads, owned.read (by omega), bytes]

/-- A token that reaches to the end of the text. -/
private theorem last_token
    {lead token : List UInt8}
    (scanning : Scanning state contents x p (lead ++ token)) :
    let saveptr := { p with offset := p.offset + (lead ++ token).length }
    Scanning state contents x saveptr [] ∧
      Returned state saveptr [] { p with offset := p.offset + lead.length } token := by
  obtain ⟨capacity, data, owned, inside, bytes⟩ := scanning.owned
  have whole : ByteMemory.read data p.offset ((lead ++ token).length + 1) =
      lead ++ ((token ++ [0]) ++ []) := by
    rw [bytes, List.append_nil, List.append_assoc]
  have ends : ByteMemory.read data p.offset ((lead ++ token).length + 1) =
      (lead ++ token) ++ ([0] ++ []) := by
    rw [bytes, List.append_nil]
  have tokenBytes := read_middle whole
  rw [List.length_append, List.length_singleton] at tokenBytes
  have length : (lead ++ token).length = lead.length + token.length := List.length_append
  refine ⟨⟨⟨capacity, data, owned, inside, read_middle ends⟩, List.not_mem_nil⟩, ?_, rfl,
    Or.inr rfl⟩
  simp only [Reads]
  rw [owned.read (by omega), tokenBytes]

/-- A token behind which a delimiter was overwritten. -/
private theorem cut_token
    {result : State Handle}
    {lead token behind : List UInt8}
    {byte : UInt8}
    (scanning : Scanning state contents x p (lead ++ (token ++ byte :: behind)))
    (wrote :
      state.write p.place (p.offset + (lead.length + token.length)) [0] = some result) :
    let saveptr := { p with offset := p.offset + (lead.length + token.length + 1) }
    Scanning result contents x saveptr behind ∧
      Returned result saveptr behind { p with offset := p.offset + lead.length } token ∧
      ∀ former text,
        former.place = p.place →
        former.offset + text.length < p.offset →
        Reads state former text →
        Reads result former text := by
  obtain ⟨capacity, data, owned, inside, bytes⟩ := scanning.owned
  have length : (lead ++ (token ++ byte :: behind)).length =
      lead.length + token.length + 1 + behind.length := by
    simp only [List.length_append, List.length_cons]
    omega
  obtain ⟨again, wroteAgain, owned', _⟩ :=
    @Owned.write _ _ _ _ _ _ _ (p.offset + (lead.length + token.length)) data [0] owned
      (by simp only [List.length_singleton]; omega)
  obtain rfl := Option.some.inj (wroteAgain.symm.trans wrote)
  have tokenBytes : ByteMemory.read data (p.offset + lead.length) token.length = token := by
    have known : ByteMemory.read data p.offset ((lead ++ (token ++ byte :: behind)).length + 1) =
        lead ++ (token ++ (byte :: behind ++ [0])) := by
      rw [bytes, List.append_assoc, List.append_assoc]
    exact read_middle known
  have behindBytes : ByteMemory.read data (p.offset + (lead.length + token.length + 1))
      (behind.length + 1) = behind ++ [0] := by
    have known : ByteMemory.read data p.offset ((lead ++ (token ++ byte :: behind)).length + 1) =
        (lead ++ token ++ [byte]) ++ ((behind ++ [0]) ++ []) := by
      rw [bytes]
      simp
    have middle := read_middle known
    simp only [List.length_append, List.length_singleton] at middle
    exact middle
  refine ⟨⟨⟨capacity, _, owned', by simp only; omega, ?_⟩, ?_⟩, ⟨?_, rfl, Or.inl ?_⟩, ?_⟩
  · simp only
    rw [read_write_disjoint (Or.inr (by simp only [List.length_singleton]; omega)), behindBytes]
  · intro nul
    exact scanning.noNul (by simp [nul])
  · simp only [Reads]
    rw [owned'.read (by omega), read_add, read_write_disjoint (Or.inl (by omega)), tokenBytes,
      ← Nat.add_assoc, read_write_of_length List.length_singleton]
  · simp only
    omega
  · intro former text place inFront reads
    rw [Reads, place] at reads ⊢
    rw [owned.read (by omega)] at reads
    rw [owned'.read (by omega), read_write_disjoint (Or.inl (by omega))]
    exact reads

/-- One more token is returned, and the text behind it is left; or there is none. -/
theorem call
    (scanning : Scanning state contents x p rest)
    (delim : CString)
    (saveptr : Pointer Handle) :
    ∃ token,
      tokFrom state p delim saveptr = some token ∧
        ((runs delim.bytes rest = [] ∧ token.token = none ∧ token.state = state) ∨
          ∃ text left pointer,
            runs delim.bytes rest = text :: runs delim.bytes left ∧
              token.token = some pointer ∧
              Scanning token.state contents x token.saveptr left ∧
              Returned token.state token.saveptr left pointer text ∧
              ∀ former text,
                Returned state p rest former text →
                Returned token.state token.saveptr left former text) := by
  obtain ⟨lead, token, tail, scanned⟩ := exists_scanned delim.bytes rest
  obtain ⟨noRuns, someRuns⟩ := scanned.runs_eq
  obtain ⟨nothing, ending, cutting⟩ :=
    tokFrom_scanned scanning.reads scanning.noNul scanned saveptr
  by_cases noToken : token = []
  · exact ⟨_, nothing noToken, Or.inl ⟨noRuns noToken, rfl, rfl⟩⟩
  have left : ∀ former text, Returned state p rest former text →
      former.offset + text.length < p.offset := by
    -- There is text left, as it has a token.
    intro former text returned
    refine returned.behind.resolve_right ?_
    rintro rfl
    have whole := congrArg List.length scanned.whole
    have positive := List.length_pos_iff.mpr noToken
    simp only [List.length_nil, List.length_append] at whole
    omega
  cases tail with
  | nil =>
      have whole : rest = lead ++ token := by rw [scanned.whole, List.append_nil]
      subst whole
      obtain ⟨scanningAfter, returned⟩ := scanning.last_token
      refine ⟨_, ending noToken rfl, Or.inr ⟨token, [], _, someRuns noToken, rfl, scanningAfter,
        returned, ?_⟩⟩
      intro former text earlier
      exact ⟨earlier.reads, earlier.place, Or.inr rfl⟩
  | cons byte behind =>
      obtain ⟨result, wrote, cut⟩ := cutting (by simp)
      have whole := scanned.whole
      subst whole
      obtain ⟨scanningAfter, returned, kept⟩ := scanning.cut_token wrote
      refine ⟨_, cut, Or.inr ⟨token, behind, _, someRuns noToken, rfl, scanningAfter, returned,
        ?_⟩⟩
      intro former text earlier
      have inFront := left former text earlier
      refine ⟨kept former text earlier.place inFront earlier.reads, earlier.place, Or.inl ?_⟩
      simp only
      omega

end Scanning

/-! ## All calls -/

section Calls

variable {delim : CString} {saveptr : Pointer Handle} {allocation : Allocation}

/-- The first call starts to scan the whole string, in bytes that belong to `x` alone. -/
private theorem first_call
    (valid : Valid state contents)
    (fresh : Fresh state allocation)
    (noNul : (0 : UInt8) ∉ contents x)
    (occupied : delim.bytes ≠ []) :
    ∃ cowed p,
      tokenCall state x delim saveptr allocation 0 = tokFrom cowed p delim saveptr ∧
        Scanning cowed contents x p (contents x) := by
  have fits := (valid.strings x).size_le_capacity
  rw [(valid.strings x).xsSize_eq] at fits
  obtain ⟨cowed, data, copied, owned, bytes, _⟩ := valid.cow x fresh
  refine ⟨cowed, { place := xsData cowed (some x), offset := 0 }, ?_,
    ⟨⟨_, data, owned, by simp only; omega, bytes⟩, noNul⟩⟩
  simp only [tokenCall, xsTokR, if_neg occupied, copied, Option.bind_eq_bind, Option.bind_some]

/--
When a call starts to scan, the text left has the runs that were not returned yet, and
all tokens that were returned are in front of it.
-/
private theorem before_call
    (valid : Valid state contents)
    (fresh : Fresh state allocation)
    (noNul : (0 : UInt8) ∉ contents x)
    (occupied : delim.bytes ≠ [])
    (n : Nat)
    (within : n ≤ (runs delim.bytes (contents x)).length) :
    ∃ middle p saved rest,
      tokenCall state x delim saveptr allocation n = tokFrom middle p delim saved ∧
        Scanning middle contents x p rest ∧
        runs delim.bytes rest = (runs delim.bytes (contents x)).drop n ∧
        ∀ m text,
          m < n →
          (runs delim.bytes (contents x))[m]? = some text →
          ∃ former pointer,
            tokenCall state x delim saveptr allocation m = some former ∧
              former.token = some pointer ∧
              Returned middle p rest pointer text := by
  induction n with
  | zero =>
      obtain ⟨cowed, p, called, scanning⟩ :=
        @first_call _ _ _ _ _ _ saveptr _ valid fresh noNul occupied
      exact ⟨cowed, p, saveptr, contents x, called, scanning, rfl, fun m _ below => by omega⟩
  | succ n inductionHypothesis =>
      obtain ⟨middle, p, saved, rest, called, scanning, left, earlier⟩ :=
        inductionHypothesis (by omega)
      rw [List.drop_eq_getElem_cons within] at left
      obtain ⟨token, returned, ⟨nothing, _⟩ |
        ⟨text, behind, pointer, split, isToken, scanningAfter, here, kept⟩⟩ :=
        scanning.call delim saved
      · rw [nothing] at left
        exact absurd left.symm (List.cons_ne_nil _ _)
      · rw [split] at left
        obtain ⟨rfl, leftAfter⟩ := List.cons.inj left
        rw [returned] at called
        refine ⟨token.state, token.saveptr, token.saveptr, behind, ?_, scanningAfter, leftAfter,
          ?_⟩
        · simp only [tokenCall, called, Option.bind_eq_bind, Option.bind_some, xsTokR,
            if_neg occupied]
        · intro m text below isRun
          rcases Nat.lt_succ_iff_lt_or_eq.mp below with before | rfl
          · obtain ⟨former, pointer', calledBefore, isFormer, there⟩ := earlier m text before isRun
            exact ⟨former, pointer', calledBefore, isFormer, kept _ _ there⟩
          · rw [List.getElem?_eq_getElem within] at isRun
            obtain rfl := Option.some.inj isRun
            exact ⟨token, pointer, called, isToken, here⟩

/--
The calls of `xs_tok_r` on a handle return the maximal runs of bytes that are no
delimiters, in order and each with its terminator, which stays there in the calls that
follow, then a null pointer; every other handle keeps its string.
-/
theorem tokens_are_runs
    (valid : Valid state contents)
    (fresh : Fresh state allocation)
    (noNul : (0 : UInt8) ∉ contents x)
    (occupied : delim.bytes ≠ [])
    (saveptr : Pointer Handle)
    (n : Nat)
    (within : n ≤ (runs delim.bytes (contents x)).length) :
    ∃ token,
      tokenCall state x delim saveptr allocation n = some token ∧
        (token.token = none ↔ n = (runs delim.bytes (contents x)).length) ∧
        (∀ m text,
          m ≤ n →
          (runs delim.bytes (contents x))[m]? = some text →
          ∃ former pointer,
            tokenCall state x delim saveptr allocation m = some former ∧
              former.token = some pointer ∧
              Reads token.state pointer text) ∧
        ∀ other, other ≠ x → Holds token.state other (contents other) := by
  obtain ⟨middle, p, saved, rest, called, scanning, left, earlier⟩ :=
    @before_call _ _ _ _ _ _ saveptr _ valid fresh noNul occupied n within
  obtain ⟨token, returned, ⟨nothing, noToken, unchanged⟩ |
    ⟨text, behind, pointer, split, isToken, scanningAfter, here, kept⟩⟩ :=
    scanning.call delim saved
  · have last : n = (runs delim.bytes (contents x)).length := by
      rw [nothing] at left
      have short := List.drop_eq_nil_iff.mp left.symm
      omega
    refine ⟨token, called.trans returned, iff_of_true noToken last, ?_, ?_⟩
    · intro m text below isRun
      obtain ⟨inside, _⟩ := List.getElem?_eq_some_iff.mp isRun
      obtain ⟨former, pointer, calledBefore, isFormer, there⟩ := earlier m text (by omega) isRun
      exact ⟨former, pointer, calledBefore, isFormer, by rw [unchanged]; exact there.reads⟩
    · intro other different
      obtain ⟨_, _, owned, _⟩ := scanning.owned
      rw [unchanged]
      exact owned.holds_other different
  · rw [split] at left
    have first : (runs delim.bytes (contents x))[n]? = some text := by
      rw [← Nat.add_zero n, ← List.getElem?_drop, ← left]
      rfl
    obtain ⟨inside, _⟩ := List.getElem?_eq_some_iff.mp first
    refine ⟨token, called.trans returned, iff_of_false (by simp [isToken]) (by omega), ?_, ?_⟩
    · intro m run below isRun
      rcases Nat.lt_or_eq_of_le below with before | rfl
      · obtain ⟨former, pointer', calledBefore, isFormer, there⟩ := earlier m run before isRun
        exact ⟨former, pointer', calledBefore, isFormer, (kept _ _ there).reads⟩
      · obtain rfl := Option.some.inj (first.symm.trans isRun)
        exact ⟨token, pointer, called.trans returned, isToken, here.reads⟩
    · intro other different
      obtain ⟨_, _, owned, _⟩ := scanningAfter.owned
      exact owned.holds_other different

end Calls

/-- Two words with blanks in front, between and behind. -/
private def twoWords : CString :=
  ⟨[32, 97, 97, 32, 32, 98, 32], by decide⟩

theorem tokens_are_runs_twoWords :
    ∃ state token,
      xsNew (State.initial : State Bool) (some true) twoWords ⟨4096, fun _ => 0⟩ = some state ∧
        tokenCall state true space ⟨.inline none, 0⟩ ⟨8192, fun _ => 0⟩ 2 = some token ∧
        token.token = none ∧
        ∃ former pointer,
          tokenCall state true space ⟨.inline none, 0⟩ ⟨8192, fun _ => 0⟩ 1 = some former ∧
            former.token = some pointer ∧
            Reads token.state pointer [98] := by
  have created : ∃ state,
      xsNew (State.initial : State Bool) (some true) twoWords ⟨4096, fun _ => 0⟩ = some state ∧
        Fresh state ⟨8192, fun _ => 0⟩ :=
    ⟨_, rfl, rfl, by decide⟩
  obtain ⟨state, created, fresh⟩ := created
  have valid := valid_alone created (by decide)
  obtain ⟨token, called, ends, returned, _⟩ :=
    @tokens_are_runs _ _ _ _ true space _ valid fresh (by decide) (by decide) ⟨.inline none, 0⟩ 2
      (by decide)
  exact ⟨state, token, created, called, ends.mpr (by decide),
    returned 1 [98] (by decide) (by decide)⟩

end Sysprog.Xstring
