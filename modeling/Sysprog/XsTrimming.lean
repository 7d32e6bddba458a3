import Sysprog.XsLifetimes

namespace Sysprog.Xstring

open ByteMemory CStrings Execution MachineWord

/-!
# Which strings `xs_trim` can trim

The two scans of `xs_trim` do not know of each other.  They meet in order when a byte
is kept, and when there is nothing to scan.  A string whose bytes are all in the set is
passed over twice, and the difference of the two positions wraps.
-/

variable
  {Handle : Type}
  [DecidableEq Handle]
  {state : State Handle}
  {contents : Handle → List UInt8}
  {handle : Handle}
  {trimset : CString}
  {allocation : Allocation}

/--
`xs_trim` returns with its string trimmed and every other string as it was, and the
scan from the front did not pass the one from the back.
-/
structure Trims
    (state : State Handle)
    (contents : Handle → List UInt8)
    (handle : Handle)
    (trimset : CString)
    (allocation : Allocation) : Prop where
  ordered :
    let mask := trimset.bytes.foldl setBit fun _ => 0
    skipFront mask (contents handle) ≤
      skipBack mask (contents handle) (contents handle).length
  returns :
    ∃ result,
      xsTrim state (some handle) trimset allocation = some result ∧
        ∀ other,
          Holds result other
            (Function.update contents handle (trim trimset.bytes (contents handle)) other)

/-! ## Strings with a byte to keep -/

/-- The two loops of `xs_trim` do not pass each other. -/
theorem loops_ordered
    {set string : List UInt8}
    (kept : string = [] ∨ ∃ byte ∈ string, byte ∉ set) :
    skipFront (set.foldl setBit fun _ => 0) string ≤
      skipBack (set.foldl setBit fun _ => 0) string string.length := by
  have inSet : checkBit (set.foldl setBit fun _ => 0) = fun byte => decide (byte ∈ set) :=
    funext (checkBit_mask set)
  obtain ⟨ordered, _⟩ :=
    @scans_trim (fun byte => decide (byte ∈ set)) string (by simpa using kept)
  rw [skipFront_eq, skipBack_eq _ _ (Nat.le_refl _), List.take_length, inSet]
  exact ordered

/-! ## Strings of bytes of the set -/

/-- Over bytes of the set only, each loop runs to the other end. -/
theorem loops_overrun
    {set string : List UInt8}
    (all : ∀ byte ∈ string, byte ∈ set) :
    skipFront (set.foldl setBit fun _ => 0) string = string.length ∧
      skipBack (set.foldl setBit fun _ => 0) string string.length = 0 := by
  have inSet : ∀ byte ∈ string, checkBit (set.foldl setBit fun _ => 0) byte := by
    intro byte member
    rw [checkBit_mask]
    exact decide_eq_true (all byte member)
  constructor
  · rw [skipFront_eq, List.takeWhile_eq_self_iff.mpr inSet]
  · rw [skipBack_eq _ _ (Nat.le_refl _), List.take_length, List.rdropWhile_eq_nil_iff.mpr inSet]
    rfl

/-- What `xs_trim` reads from is, after `xs_cow`, no larger than the largest buffer. -/
private theorem extent_former_le
    {cowed : State Handle}
    {data : Memory}
    {limit : Nat}
    (valid : Valid state contents)
    (copied : xsCow state (some handle) allocation = some cowed)
    (separated : Separated state contents handle cowed data)
    (bound : cowed.extent (xsData state (some handle)) = some limit) :
    limit ≤ 2 ^ 32 + 7 := by
  have largest : ∀ {heap : Heap} {x : Xs} {string exponent block},
      HeapString heap x string x.ptr exponent block →
      (heap x.ptr).map Block.length = some limit →
      limit ≤ 2 ^ 32 + 7 := by
    intro heap x string exponent block onHeap length
    rw [onHeap.live, Option.map_some, onHeap.length] at length
    have narrow : 2 ^ exponent ≤ 2 ^ 32 := Nat.pow_le_pow_right (by decide) onHeap.atMost
    have same := Option.some.inj length
    omega
  cases isPtr : (state.xs (some handle)).isPtr with
  | false =>
      simp only [xsData, isPtr, Bool.false_eq_true, if_false, State.extent] at bound
      have same := Option.some.inj bound
      omega
  | true =>
      simp only [xsData, isPtr, if_true, State.extent] at bound
      by_cases shared : Shared state handle
      · -- The other owner still refers to the buffer.
        obtain ⟨_, other, different, otherPtr, samePtr⟩ := valid.exists_sharer shared
        have stores := separated.owned.others.strings other
        rw [Function.update_of_ne different, State.assign_other _ (by simpa using different),
          State.assign_heap, separated.others other different] at stores
        obtain ⟨_, _, onHeap⟩ := stores.heapString otherPtr
        rw [← samePtr] at bound
        exact largest onHeap bound
      · obtain rfl := cow_unshared shared copied
        obtain ⟨_, _, onHeap⟩ := (valid.strings handle).heapString isPtr
        exact largest onHeap bound

/-- A string of bytes of the set only: the length wraps, and so many bytes cannot be moved. -/
theorem trim_overruns
    (valid : Valid state contents)
    (occupied : contents handle ≠ [])
    (all : ∀ byte ∈ contents handle, byte ∈ trimset.bytes)
    (fresh : Fresh state allocation) :
    xsTrim state (some handle) trimset allocation = none := by
  have noSet : trimset.bytes ≠ [] := by
    intro empty
    obtain ⟨byte, member⟩ := List.exists_mem_of_ne_nil _ occupied
    rw [empty] at all
    exact absurd (all byte member) List.not_mem_nil
  have sizeEq := (valid.strings handle).xsSize_eq
  have fits := (valid.strings handle).size_le_capacity
  have narrow := (valid.strings handle).capacity_lt
  have wide : 2 ^ 32 + 7 < words := by decide
  have positive := List.length_pos_iff.mpr occupied
  have readable := State.read_string (valid.strings handle).read_xsData
  obtain ⟨front, back⟩ := loops_overrun all
  obtain ⟨cowed, data, copied, separated⟩ := valid.cow handle fresh
  have wraps : sub 0 (contents handle).length = words - (contents handle).length := by
    rw [sub_of_lt (by omega) positive, Nat.sub_zero]
  have beyond : cowed.read (xsData state (some handle)) (contents handle).length
      (words - (contents handle).length) = none := by
    rw [Option.eq_none_iff_forall_ne_some]
    intro bytes moved
    obtain ⟨limit, bound, inside⟩ := extent_of_read moved
    have small := extent_former_le valid copied separated bound
    omega
  simp only [xsTrim, if_neg noSet, sizeEq, readable, Option.bind_eq_bind, Option.bind_some, front,
    back, wraps, copied, beyond, Option.bind_none]

/-! ## All strings -/

/--
`xs_trim` trims its string and leaves every other one, exactly if the string is empty
or has a byte that is not in the set.
-/
theorem trims_iff_keeps_byte
    (valid : Valid state contents)
    (handle : Handle)
    (trimset : CString)
    (fresh : Fresh state allocation) :
    Trims state contents handle trimset allocation ↔
      contents handle = [] ∨ ∃ byte ∈ contents handle, byte ∉ trimset.bytes := by
  constructor
  · rintro ⟨_, result, returned, _⟩
    by_contra nothing
    push Not at nothing
    obtain ⟨occupied, all⟩ := nothing
    rw [trim_overruns valid occupied all fresh] at returned
    simp at returned
  · intro kept
    obtain ⟨result, returned, after⟩ := valid.trim handle trimset kept fresh
    exact ⟨loops_ordered kept, result, returned, after.holds⟩

theorem trims_keeps_byte_word :
    ∃ state contents,
      xsNew (State.initial : State Bool) (some true) ⟨[32, 97, 32], by decide⟩
          ⟨4096, fun _ => 0⟩ = some state ∧
        contents true = [32, 97, 32] ∧
        Trims state contents true space ⟨8192, fun _ => 0⟩ := by
  have word : ∃ state,
      xsNew (State.initial : State Bool) (some true) ⟨[32, 97, 32], by decide⟩
          ⟨4096, fun _ => 0⟩ = some state ∧
        Fresh state ⟨8192, fun _ => 0⟩ :=
    ⟨_, rfl, rfl, by decide⟩
  obtain ⟨state, created, fresh⟩ := word
  refine ⟨state, _, created, rfl,
    (trims_iff_keeps_byte (valid_alone created (by decide)) true space fresh).mpr (Or.inr ?_)⟩
  exact ⟨97, by decide, by decide⟩

/-- Two blanks and nothing else are not trimmed of blanks. -/
theorem blanks_not_trimmed :
    ∃ state contents,
      xsNew (State.initial : State Bool) (some true) ⟨[32, 32], by decide⟩
          ⟨4096, fun _ => 0⟩ = some state ∧
        Valid state contents ∧
        contents true = [32, 32] ∧
        Fresh state ⟨8192, fun _ => 0⟩ ∧
        ¬ Trims state contents true space ⟨8192, fun _ => 0⟩ := by
  have blanks : ∃ state,
      xsNew (State.initial : State Bool) (some true) ⟨[32, 32], by decide⟩
          ⟨4096, fun _ => 0⟩ = some state ∧
        Fresh state ⟨8192, fun _ => 0⟩ :=
    ⟨_, rfl, rfl, by decide⟩
  obtain ⟨state, created, fresh⟩ := blanks
  have valid := valid_alone created (by decide)
  generalize contentsEq : Function.update (fun _ => []) true _ = contents at valid
  have string : contents true = [32, 32] := by
    rw [← contentsEq, Function.update_self]
  refine ⟨state, contents, created, valid, string, fresh, ?_⟩
  rintro ⟨_, result, returned, _⟩
  have occupied : contents true ≠ [] := by
    rw [string]
    exact List.cons_ne_nil _ _
  have all : ∀ byte ∈ contents true, byte ∈ space.bytes := by
    rw [string]
    simp [space]
  rw [trim_overruns valid occupied all fresh] at returned
  simp at returned

end Sysprog.Xstring
