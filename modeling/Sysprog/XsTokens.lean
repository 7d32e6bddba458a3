import Sysprog.XsCounts
import Sysprog.XsStrings

namespace Sysprog.Xstring

open ByteMemory CStrings

/-!
# Where a token is cut off

`xs_tok_r` scans the text from its starting point to the first NUL.  It skips leading
delimiters, takes the bytes up to the next one for the token, and overwrites that one.
-/

/-! ## The two scans -/

/--
The text has a token, behind leading delimiters, and a delimiter behind the token at
this position.
-/
def CutAt (delim text : List UInt8) (position : Nat) : Prop :=
  ∃ lead token byte rest,
    text = lead ++ (token ++ byte :: rest) ∧
      (∀ other ∈ lead, other ∈ delim) ∧
      token ≠ [] ∧
      (∀ other ∈ token, other ∉ delim) ∧
      byte ∈ delim ∧
      position = lead.length + token.length

/-- The second scan counts the bytes before one in the set. -/
private theorem skipToken_eq (mask : Nat → Nat) (text : List UInt8) :
    skipToken mask text = (text.takeWhile fun byte => !checkBit mask byte).length := by
  induction text with
  | nil =>
      rfl
  | cons byte rest inductionHypothesis =>
      by_cases inSet : checkBit mask byte
      · simp [skipToken, inSet]
      · simp [skipToken, inSet, inductionHypothesis]

/-- Where the two scans of `xs_tok_r` stop. -/
def scanStop (delim text : List UInt8) : Nat :=
  let mask := delim.foldl setBit fun _ => 0
  skipFront mask text + skipToken mask (text.drop (skipFront mask text))

/--
A text as the two scans see it: leading delimiters, a token, and what a delimiter
begins.  There is no token only if nothing is behind the leading delimiters.
-/
structure Scanned (delim text lead token rest : List UInt8) : Prop where
  whole : text = lead ++ (token ++ rest)
  leads : ∀ byte ∈ lead, byte ∈ delim
  tokens : ∀ byte ∈ token, byte ∉ delim
  delimits : ∀ byte ∈ rest.head?, byte ∈ delim
  occupied : token = [] → rest = []

section Scans

variable {delim text lead token rest : List UInt8}

/-- Every text can be scanned. -/
theorem exists_scanned (delim text : List UInt8) :
    ∃ lead token rest, Scanned delim text lead token rest := by
  have whole := List.takeWhile_append_dropWhile (p := fun byte => decide (byte ∈ delim)) (l := text)
  have behind := List.head?_dropWhile_not (fun byte => decide (byte ∈ delim)) text
  generalize text.dropWhile (fun byte => decide (byte ∈ delim)) = tail at whole behind
  refine ⟨text.takeWhile fun byte => decide (byte ∈ delim),
    tail.takeWhile fun byte => decide (byte ∉ delim),
    tail.dropWhile fun byte => decide (byte ∉ delim), ?_, ?_, ?_, ?_, ?_⟩
  · rw [List.takeWhile_append_dropWhile]
    exact whole.symm
  · intro byte member
    simpa using List.mem_takeWhile_imp member
  · intro byte member
    simpa using List.mem_takeWhile_imp member
  · intro byte first
    have stops := List.head?_dropWhile_not (fun byte => decide (byte ∉ delim)) tail
    rw [Option.mem_def.mp first] at stops
    simpa using stops
  · -- A byte behind the leading delimiters would be in the token.
    intro noToken
    cases tail with
    | nil =>
        rfl
    | cons byte others =>
        have outside : byte ∉ delim := by simpa using behind
        simp [outside] at noToken

/-- The scans stop behind the leading delimiters and behind the token. -/
theorem Scanned.scans (scanned : Scanned delim text lead token rest) :
    skipFront (delim.foldl setBit fun _ => 0) text = lead.length ∧
      scanStop delim text = lead.length + token.length := by
  obtain ⟨rfl, leads, tokens, delimits, occupied⟩ := scanned
  have inSet : checkBit (delim.foldl setBit fun _ => 0) = fun byte => decide (byte ∈ delim) :=
    funext (checkBit_mask delim)
  have outOfSet : (fun byte => !checkBit (delim.foldl setBit fun _ => 0) byte) =
      fun byte => decide (byte ∉ delim) := by
    funext byte
    rw [inSet]
    simp
  have front : (lead ++ (token ++ rest)).takeWhile (fun byte => decide (byte ∈ delim)) = lead := by
    rw [List.takeWhile_append_of_pos (by simpa using leads)]
    cases token with
    | nil =>
        rw [occupied rfl]
        simp
    | cons byte others =>
        have outside := tokens byte List.mem_cons_self
        simp [outside]
  have middle : (token ++ rest).takeWhile (fun byte => decide (byte ∉ delim)) = token := by
    rw [List.takeWhile_append_of_pos (by simpa using tokens)]
    cases rest with
    | nil => simp
    | cons byte others =>
        have inside := delimits byte rfl
        simp [inside]
  have start : skipFront (delim.foldl setBit fun _ => 0) (lead ++ (token ++ rest)) =
      lead.length := by
    rw [skipFront_eq, inSet, front]
  refine ⟨start, ?_⟩
  simp only [scanStop]
  rw [start, List.drop_left, skipToken_eq, outOfSet, middle]

/-- A text with a delimiter behind its token is cut there. -/
theorem Scanned.cutAt
    (scanned : Scanned delim text lead token rest)
    (cuts : rest ≠ []) :
    CutAt delim text (lead.length + token.length) := by
  obtain ⟨byte, others, rfl⟩ := List.exists_cons_of_ne_nil cuts
  exact ⟨lead, token, byte, others, scanned.whole, scanned.leads,
    fun noToken => cuts (scanned.occupied noToken), scanned.tokens, scanned.delimits byte rfl, rfl⟩

/-- A cut is where the scans stop. -/
theorem CutAt.eq_scanStop
    {position : Nat}
    (cut : CutAt delim text position) :
    position = scanStop delim text ∧ position < text.length := by
  obtain ⟨lead, token, byte, rest, rfl, leads, occupied, tokens, delimits, rfl⟩ := cut
  have scanned : Scanned delim (lead ++ (token ++ byte :: rest)) lead token (byte :: rest) :=
    ⟨rfl, leads, tokens, by simpa using delimits, fun noToken => absurd noToken occupied⟩
  refine ⟨scanned.scans.2.symm, ?_⟩
  simp only [List.length_append, List.length_cons]
  omega

/-- At a cut there is a delimiter. -/
theorem CutAt.delimiter
    {position : Nat}
    (cut : CutAt delim text position) :
    ∃ byte ∈ delim, (text.drop position).take 1 = [byte] := by
  obtain ⟨lead, token, byte, rest, rfl, _, _, _, delimits, rfl⟩ := cut
  refine ⟨byte, delimits, ?_⟩
  rw [← List.append_assoc, ← List.length_append, List.drop_left]
  rfl

end Scans

/-! ## One token -/

section Tokens

variable
  {Handle : Type}
  {state : State Handle}
  {orig saveptr : Pointer Handle}
  {slen : Nat}

/-- What `strlen` found: text without NUL, and a NUL behind it. -/
theorem strlen_spec
    (found : strlen state orig = some slen) :
    ∃ text limit,
      state.extent orig.place = some limit ∧
        orig.offset + slen < limit ∧
        state.read orig.place orig.offset (slen + 1) = some (text ++ [0]) ∧
        text.length = slen ∧
        (0 : UInt8) ∉ text := by
  simp only [strlen, Option.bind_eq_bind, Option.bind_eq_some_iff] at found
  obtain ⟨limit, bound, bytes, readable, ends⟩ := found
  split at ends
  · rename_i below
    obtain rfl := Option.some.inj ends
    have split := List.takeWhile_append_dropWhile (p := fun byte : UInt8 => decide (byte ≠ 0))
      (l := bytes)
    generalize textEq : bytes.takeWhile (fun byte => decide (byte ≠ 0)) = text at below split
    have within := length_of_read readable
    refine ⟨text, limit, bound, by omega, ?_, rfl, ?_⟩
    · have front := State.read_part readable
        (show 0 + (text.length + 1) ≤ limit - orig.offset by omega)
      rw [Nat.add_zero, List.drop_zero] at front
      rw [front, ← split]
      cases restEq : bytes.dropWhile (fun byte => decide (byte ≠ 0)) with
      | nil =>
          rw [restEq, List.append_nil] at split
          rw [split] at below
          omega
      | cons byte rest =>
          have stops := List.head?_dropWhile_not (fun byte : UInt8 => decide (byte ≠ 0)) bytes
          rw [restEq] at stops
          have zero : byte = 0 := by simpa using stops
          simp [zero, List.take_append]
    · intro member
      rw [← textEq] at member
      simpa using List.mem_takeWhile_imp member
  · simp at ends

/-- `strlen` of a text that ends behind bytes other than NUL. -/
theorem strlen_eq
    {text : List UInt8}
    (readable : state.read orig.place orig.offset (text.length + 1) = some (text ++ [0]))
    (noNul : (0 : UInt8) ∉ text) :
    strlen state orig = some text.length := by
  obtain ⟨limit, bound, inside⟩ := extent_of_read readable
  obtain ⟨whole, readWhole, length⟩ :=
    read_within bound (show orig.offset + (limit - orig.offset) ≤ limit by omega)
  have front := State.read_part readWhole
    (show 0 + (text.length + 1) ≤ limit - orig.offset by omega)
  rw [Nat.add_zero, List.drop_zero, readable] at front
  have split : whole = text ++ 0 :: whole.drop (text.length + 1) := by
    conv_lhs => rw [← List.take_append_drop (text.length + 1) whole]
    rw [← Option.some.inj front, List.append_assoc]
    rfl
  have stops : whole.takeWhile (fun byte => decide (byte ≠ 0)) = text := by
    rw [split, List.takeWhile_append_of_pos]
    · simp
    · intro byte member
      simp only [decide_eq_true_eq]
      rintro rfl
      exact noNul member
  simp only [strlen, bound, readWhole, Option.bind_eq_bind, Option.bind_some, stops]
  exact if_pos (by omega)

variable [DecidableEq Handle]

/-- What `xs_tok_r` does from its starting point on, by what the scans see. -/
theorem tokFrom_scanned
    {text lead token rest : List UInt8}
    {delim : CString}
    (readable : state.read orig.place orig.offset (text.length + 1) = some (text ++ [0]))
    (noNul : (0 : UInt8) ∉ text)
    (scanned : Scanned delim.bytes text lead token rest)
    (saveptr : Pointer Handle) :
    (token = [] →
        tokFrom state orig delim saveptr =
          some { state := state, saveptr := saveptr, token := none }) ∧
      (token ≠ [] → rest = [] →
        tokFrom state orig delim saveptr =
          some
            { state := state
              saveptr := { orig with offset := orig.offset + text.length }
              token := some { orig with offset := orig.offset + lead.length } }) ∧
      (rest ≠ [] →
        ∃ result,
          state.write orig.place (orig.offset + (lead.length + token.length)) [0] =
              some result ∧
            tokFrom state orig delim saveptr =
              some
                { state := result
                  saveptr :=
                    { orig with offset := orig.offset + (lead.length + token.length + 1) }
                  token := some { orig with offset := orig.offset + lead.length } }) := by
  have found := strlen_eq readable noNul
  obtain ⟨limit, bound, inside⟩ := extent_of_read readable
  have bytes := State.read_part readable (show 0 + text.length ≤ text.length + 1 by omega)
  rw [Nat.add_zero, List.drop_zero, List.take_left] at bytes
  obtain ⟨front, stop⟩ := scanned.scans
  simp only [scanStop] at stop
  rw [front] at stop
  have length : text.length = lead.length + token.length + rest.length := by
    rw [scanned.whole, List.length_append, List.length_append, Nat.add_assoc]
  have here := State.read_part readable (show lead.length + 1 ≤ text.length + 1 by omega)
  have nothing : token = [] → state.read orig.place (orig.offset + lead.length) 1 = some [0] := by
    intro noToken
    rw [here, scanned.whole, noToken, scanned.occupied noToken]
    simp
  have something : token ≠ [] →
      ∃ byte, byte ≠ 0 ∧ state.read orig.place (orig.offset + lead.length) 1 = some [byte] := by
    intro occupied
    obtain ⟨byte, others, rfl⟩ := List.exists_cons_of_ne_nil occupied
    refine ⟨byte, ?_, ?_⟩
    · rintro rfl
      exact noNul (by rw [scanned.whole]; simp)
    · rw [here, scanned.whole]
      simp
  refine ⟨?_, ?_, ?_⟩
  · intro noToken
    simp only [tokFrom, found, bytes, front, nothing noToken, Option.bind_eq_bind,
      Option.bind_some, if_true]
    rfl
  · rintro occupied rfl
    obtain ⟨byte, nonzero, first⟩ := something occupied
    rw [List.length_nil, Nat.add_zero] at length
    rw [← length] at stop
    simp only [tokFrom, found, bytes, front, first, Option.bind_eq_bind, Option.bind_some,
      List.cons.injEq, nonzero, false_and, if_false, stop, Nat.lt_irrefl]
    rfl
  · intro cuts
    obtain ⟨byte, nonzero, first⟩ := something fun noToken => cuts (scanned.occupied noToken)
    have positive := List.length_pos_iff.mpr cuts
    obtain ⟨result, wrote⟩ := write_within bound
      (show orig.offset + (lead.length + token.length) + ([0] : List UInt8).length ≤ limit by
        simp only [List.length_singleton]
        omega)
    refine ⟨result, wrote, ?_⟩
    simp only [tokFrom, found, bytes, front, first, Option.bind_eq_bind, Option.bind_some,
      List.cons.injEq, nonzero, false_and, if_false, stop, wrote]
    rw [if_pos (by omega)]
    rfl

/-- What `xs_tok_r` does from its starting point on. -/
theorem tokFrom_spec
    (delim : CString)
    (found : strlen state orig = some slen) :
    ∃ text token,
      state.read orig.place orig.offset slen = some text ∧
        tokFrom state orig delim saveptr = some token ∧
        (((∀ position, ¬ CutAt delim.bytes text position) ∧ token.state = state) ∨
          ∃ position,
            CutAt delim.bytes text position ∧
              state.write orig.place (orig.offset + position) [0] = some token.state) ∧
        ((token.token = none ∧ token.saveptr = saveptr) ∨
          (token.token ≠ none ∧ token.saveptr.place = orig.place)) := by
  obtain ⟨text, limit, bound, below, readable, rfl, noNul⟩ := strlen_spec found
  have bytes := State.read_part readable (show 0 + text.length ≤ text.length + 1 by omega)
  rw [Nat.add_zero, List.drop_zero, List.take_left] at bytes
  obtain ⟨lead, token, rest, scanned⟩ := exists_scanned delim.bytes text
  obtain ⟨nothing, ending, cutting⟩ := tokFrom_scanned readable noNul scanned saveptr
  have noCut : rest = [] → ∀ position, ¬ CutAt delim.bytes text position := by
    rintro rfl position cut
    obtain ⟨rfl, inside⟩ := cut.eq_scanStop
    rw [scanned.scans.2, scanned.whole, List.append_nil, List.length_append] at inside
    omega
  refine ⟨text, ?_⟩
  by_cases noToken : token = []
  · exact ⟨_, bytes, nothing noToken, Or.inl ⟨noCut (scanned.occupied noToken), rfl⟩,
      Or.inl ⟨rfl, rfl⟩⟩
  · by_cases ends : rest = []
    · exact ⟨_, bytes, ending noToken ends, Or.inl ⟨noCut ends, rfl⟩, Or.inr ⟨by simp, rfl⟩⟩
    · obtain ⟨result, wrote, returned⟩ := cutting ends
      exact ⟨_, bytes, returned, Or.inr ⟨_, scanned.cutAt ends, wrote⟩, Or.inr ⟨by simp, rfl⟩⟩

/-- A token is only looked for in text that ends. -/
theorem strlen_of_tokFrom
    {delim : CString}
    {token : Token Handle}
    (returned : tokFrom state orig delim saveptr = some token) :
    ∃ slen, strlen state orig = some slen := by
  simp only [tokFrom, Option.bind_eq_bind, Option.bind_eq_some_iff] at returned
  obtain ⟨slen, found, _⟩ := returned
  exact ⟨slen, found⟩

end Tokens

end Sysprog.Xstring
