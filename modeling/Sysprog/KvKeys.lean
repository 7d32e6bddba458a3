import Sysprog.KvReads

namespace Sysprog.Kv

open CStrings Execution

/-!
# Keys of any length

`kv_store_write` accepts every key that is not empty.  It chooses the bucket by the whole
key and stores 15 bytes of it, and readers compare 16 bytes.  So a longer key is never found,
and its stored part may be found as a key of its own.  An empty slot holds the empty key.
-/

/-! ## Runs of all clients -/

/-- A call that a client makes: an accepted write, or a read, which changes caches only. -/
inductive Access where
  | write (write : Write)
  | read (reader : Nat) (key : Option CString) (result : Option (List UInt8))

/-- One such call. -/
def AccessStep (before : System) (access : Access) (after : System) : Prop :=
  match access with
  | .write write =>
      kvStoreWrite before write.process (some write.key) (some write.value) write.stack =
        (0, after)
  | .read reader key result => kvStoreRead before reader key = some (result, after)

/-- The write that a call makes. -/
def Access.toWrite : Access → Option Write
  | .write made => some made
  | .read _ _ _ => none

/-- The writes of a history, in order. -/
def acceptedWrites (accesses : List Access) : List Write :=
  accesses.filterMap Access.toWrite

/-- `kv_store_read_all` returns values, and the last of them is the value cut to 31 bytes. -/
def ReadsBack (system : System) (reader : Nat) (write : Write) : Prop :=
  ∃ values,
    kvStoreReadAll system reader (some write.key) = some values ∧
      values.getLast? = some (write.value.bytes.take 31)

/-- Values are returned for a key only if some write used it. -/
def ReturnsOwn (writes : List Write) (system : System) (reader : Nat) (key : CString) : Prop :=
  kvStoreReadAll system reader (some key) ≠ none → ∃ write ∈ writes, write.key = key

/--
Some write used the key, or no slot passes for it: the key is not empty or its bucket is
full, and no longer key that begins with it is among the last writes to its bucket.
-/
def NoSlotPasses (writes : List Write) (key : CString) : Prop :=
  (∃ write ∈ writes, write.key = key) ∨
    (key.bytes ≠ [] ∨
        bucketSize ≤ (bucketWrites writes (hash key bucketCount)).length) ∧
      ∀ write ∈ lastOf bucketSize (bucketWrites writes (hash key bucketCount)),
        15 < write.key.bytes.length → write.key.bytes.take 15 ≠ key.bytes

/-! ## What a slot passes for -/

/-- A slot passes for the keys whose first 16 bytes are those that it stores. -/
theorem slot_passes_iff (text : Option CString) (key : CString) :
    strncmp keyCount (slotOf keyCount text) key.bytes = 0 ↔
      ((text.map fun held => held.bytes.take 15).getD []) = key.bytes.take 16 := by
  rw [strncmp_eq_zero_iff, slotOf, content_strncpy, content_of_noNul key.noNul]
  cases text with
  | none => rfl
  | some held =>
      have noNul : (0 : UInt8) ∉ held.bytes.take 15 :=
        fun member => held.noNul (List.mem_of_mem_take member)
      have short : (held.bytes.take 15).length ≤ 16 := by
        rw [List.length_take]
        omega
      simp only [Option.map_some, Option.getD_some, keyCount, Nat.reduceSub]
      rw [content_of_noNul noNul, List.take_of_length_le short]

/-- What is stored of a key passes for it exactly if it is the whole key. -/
theorem stored_key_passes_iff (key : CString) :
    key.bytes.take 15 = key.bytes.take 16 ↔ key.bytes.length ≤ 15 := by
  constructor
  · intro same
    have lengths := congrArg List.length same
    rw [List.length_take, List.length_take] at lengths
    omega
  · intro short
    rw [List.take_of_length_le short, List.take_of_length_le (by omega)]

variable
  {p : Bucket}
  {writes : List Write}
  {key : CString}

/-- A bucket has values for a key exactly if one of its slots passes for it. -/
theorem storedValues_ne_nil_iff :
    storedValues p key ≠ [] ↔ ∃ slot, slot < bucketSize ∧ Matches p key slot := by
  rw [storedValues, ne_eq, List.map_eq_nil_iff]
  constructor
  · intro some
    obtain ⟨slot, member⟩ := List.exists_mem_of_ne_nil _ some
    exact ⟨slot, (matches_of_mem member).2, (matches_of_mem member).1⟩
  · rintro ⟨slot, inside, matching⟩ none
    have member : slot ∈ matchingSlots p key := by
      refine List.mem_filterMap.mpr
        ⟨bucketSize - slot - 1, List.mem_range.mpr (by omega), ?_⟩
      rw [show bucketSize - (bucketSize - slot - 1) - 1 = slot by omega, if_pos matching]
    rw [none] at member
    simp at member

/-- The writes that the slots of a bucket hold are its last ones. -/
theorem mem_lastOf_iff {write : Write} :
    write ∈ lastOf bucketSize writes ↔
      ∃ slot, slot < bucketSize ∧ writes.reverse[slot]? = some write := by
  have mirrored : lastOf bucketSize writes = (writes.reverse.take bucketSize).reverse := by
    rw [List.take_reverse, List.reverse_reverse, lastOf]
  rw [mirrored, List.mem_reverse, List.mem_iff_getElem?]
  refine exists_congr fun slot => ?_
  rw [List.getElem?_take]
  by_cases inside : slot < bucketSize <;> simp [inside]

/-- Which buckets have values for a key. -/
theorem HoldsWrites.storedValues_ne_nil_iff
    (held : HoldsWrites p writes) :
    storedValues p key ≠ [] ↔
      (key.bytes = [] ∧ writes.length < bucketSize) ∨
        ∃ write ∈ lastOf bucketSize writes, write.key.bytes.take 15 = key.bytes.take 16 := by
  rw [Kv.storedValues_ne_nil_iff]
  have passes : ∀ slot, slot < bucketSize →
      (Matches p key slot ↔
        (((writes.reverse[slot]?.map Write.key).map fun held => held.bytes.take 15).getD []) =
          key.bytes.take 16) := by
    intro slot inside
    rw [Matches, held.keys slot inside, slot_passes_iff]
  constructor
  · rintro ⟨slot, inside, matching⟩
    have same := (passes slot inside).mp matching
    cases found : writes.reverse[slot]? with
    | none =>
        rw [found] at same
        rw [List.getElem?_eq_none_iff, List.length_reverse] at found
        refine Or.inl ⟨?_, by omega⟩
        simpa using same.symm
    | some write =>
        rw [found] at same
        exact Or.inr ⟨write, mem_lastOf_iff.mpr ⟨slot, inside, found⟩, same⟩
  · rintro (⟨empty, space⟩ | ⟨write, member, same⟩)
    · refine ⟨writes.length, space, (passes _ space).mpr ?_⟩
      rw [List.getElem?_eq_none (by simp), empty]
      rfl
    · obtain ⟨slot, inside, found⟩ := mem_lastOf_iff.mp member
      refine ⟨slot, inside, (passes slot inside).mpr ?_⟩
      rw [found]
      exact same

/-! ## Whole histories -/

variable
  {start final after : System}
  {accesses : List Access}

theorem acceptedWrites_append (first second : List Access) :
    acceptedWrites (first ++ second) = acceptedWrites first ++ acceptedWrites second :=
  List.filterMap_append

/-- After any calls on a fresh store every bucket holds the writes to it, with some key. -/
theorem accessRun_holds
    (fresh : ∀ bucket, start.buckets bucket = emptyBucket)
    (run : Run AccessStep start accesses final) :
    HoldsHistory (acceptedWrites accesses) final := by
  have initially : HoldsHistory (acceptedWrites []) start := by
    intro bucket
    rw [fresh bucket]
    exact emptyBucket_holdsWrites
  refine @Run.history _ _ _ _ _ _
    (fun accesses system => HoldsHistory (acceptedWrites accesses) system) run initially ?_
  intro earlier before access after held step
  rw [acceptedWrites_append]
  cases access with
  | write made =>
      intro bucket
      rw [bucketWrites, List.filter_append]
      exact accepted_holdsWrites (held bucket) step
  | read reader key result =>
      have noWrite : acceptedWrites [.read reader key result] = [] := rfl
      rw [noWrite, List.append_nil]
      cases key with
      | none =>
          obtain ⟨_, rfl⟩ := Prod.mk.inj (Option.some.inj step)
          exact held
      | some key => exact held.read step

/-- Reads alone make no write. -/
theorem acceptedWrites_reads
    (reads : ∀ access ∈ accesses, access.toWrite = none) :
    acceptedWrites accesses = [] :=
  List.filterMap_eq_nil_iff.mpr reads

/-- Where slot 0 passes for a key, its value is the last one. -/
theorem storedValues_getLast
    (newest : Matches p key 0) :
    (storedValues p key).getLast? = some (strndup keySize (p.values 0)) := by
  have ends : matchingSlots p key = oldestSlots p key 511 ++ [0] := by
    have last := oldestSlots_succ p key 511
    rwa [if_pos (by exact newest)] at last
  rw [storedValues, ends, List.map_append, List.getLast?_append]
  rfl

/-- A bucket whose last write is to a key. -/
theorem HoldsWrites.getLast
    {write : Write}
    (held : HoldsWrites p (writes ++ [write]))
    (short : write.key.bytes.length ≤ 15) :
    (storedValues p write.key).getLast? = some (write.value.bytes.take 31) := by
  have newest : (writes ++ [write]).reverse[0]? = some write := by
    simp
  have matching : Matches p write.key 0 := by
    rw [Matches, held.keys 0 (by decide), newest, slot_passes_iff]
    exact (stored_key_passes_iff write.key).mpr short
  rw [storedValues_getLast matching, held.values 0 (by decide), newest, Option.map_some,
    strndup_slotOf]

/-- A key of more than 15 bytes is never found. -/
theorem HoldsWrites.long_key_absent
    (held : HoldsWrites p writes)
    (long : 15 < key.bytes.length) :
    storedValues p key = [] := by
  by_contra found
  rcases held.storedValues_ne_nil_iff.mp found with ⟨empty, _⟩ | ⟨write, _, same⟩
  · rw [empty] at long
    simp at long
  · have lengths := congrArg List.length same
    rw [List.length_take, List.length_take] at lengths
    omega

/-- An accepted write is read back exactly if its key was stored whole. -/
theorem readsBack_iff
    {write : Write}
    {reads : List Access}
    {later : System}
    {reader : Nat}
    (fresh : ∀ bucket, start.buckets bucket = emptyBucket)
    (run : Run AccessStep start accesses final)
    (step : AccessStep final (.write write) after)
    (onward : Run AccessStep after reads later)
    (onlyReads : ∀ access ∈ reads, access.toWrite = none)
    (attached : (later.processes reader).attached = true) :
    ReadsBack later reader write ↔ write.key.bytes.length ≤ 15 := by
  have history : acceptedWrites (accesses ++ [.write write] ++ reads) =
      acceptedWrites accesses ++ [write] := by
    rw [acceptedWrites_append, acceptedWrites_append, acceptedWrites_reads onlyReads,
      List.append_nil]
    rfl
  have held := accessRun_holds fresh ((run.extend step).append onward)
    (hash write.key bucketCount)
  have newest : bucketWrites (acceptedWrites accesses ++ [write]) (hash write.key bucketCount) =
      bucketWrites (acceptedWrites accesses) (hash write.key bucketCount) ++ [write] := by
    simp [bucketWrites]
  rw [history, newest] at held
  constructor
  · rintro ⟨values, returned, _⟩
    by_contra long
    rw [kvStoreReadAll_eq attached, held.long_key_absent (by omega)] at returned
    simp at returned
  · intro short
    have last := held.getLast short
    refine ⟨_, ?_, last⟩
    rw [kvStoreReadAll_eq attached, if_neg]
    intro none
    rw [none] at last
    simp at last

/-- Values are returned for a key only if it was used, exactly if no other slot passes for it. -/
theorem returnsOwn_iff
    {reader : Nat}
    (held : HoldsHistory writes final)
    (attached : (final.processes reader).attached = true) :
    ReturnsOwn writes final reader key ↔ NoSlotPasses writes key := by
  by_cases used : ∃ write ∈ writes, write.key = key
  · exact iff_of_true (fun _ => used) (Or.inl used)
  have returns : kvStoreReadAll final reader (some key) ≠ none ↔
      storedValues (final.buckets (hash key bucketCount)) key ≠ [] := by
    rw [kvStoreReadAll_eq attached]
    split <;> simp [*]
  rw [ReturnsOwn, NoSlotPasses, or_iff_right used, returns,
    (held (hash key bucketCount)).storedValues_ne_nil_iff]
  have mine : ∀ write ∈ lastOf bucketSize (bucketWrites writes (hash key bucketCount)),
      write ∈ writes := fun write member => List.mem_of_mem_filter (List.mem_of_mem_drop member)
  constructor
  · intro none
    refine ⟨?_, ?_⟩
    · by_contra passes
      rw [not_or, not_not, Nat.not_le] at passes
      exact used (none (Or.inl passes))
    · intro write member long same
      refine used (none (Or.inr ⟨write, member, ?_⟩))
      rw [same, List.take_of_length_le]
      rw [← same, List.length_take]
      omega
  · rintro ⟨noEmpty, noLonger⟩ (⟨empty, space⟩ | ⟨write, member, same⟩)
    · rcases noEmpty with notEmpty | full
      · exact absurd empty notEmpty
      · omega
    · -- What passes for the key without being it is a longer key.
      have short : key.bytes.length ≤ 15 := by
        have lengths := congrArg List.length same
        rw [List.length_take, List.length_take] at lengths
        omega
      rw [List.take_of_length_le (show key.bytes.length ≤ 16 by omega)] at same
      by_cases long : 15 < write.key.bytes.length
      · exact absurd same (noLonger write member long)
      · rw [List.take_of_length_le (Nat.le_of_not_lt long)] at same
        refine absurd ⟨write, mine write member, ?_⟩ used
        cases written : write.key
        cases key
        simpa [written] using same

/--
After any calls of any clients on a fresh store: an accepted write is read back exactly if
its key has at most 15 bytes, and values are returned for a key that nobody used exactly if
some slot passes for it.
-/
theorem accepted_writes_read_back_iff
    (start final : System)
    (accesses : List Access)
    (fresh : ∀ bucket, start.buckets bucket = emptyBucket)
    (run : Run AccessStep start accesses final) :
    (∀ write after reads later reader,
        AccessStep final (.write write) after →
        Run AccessStep after reads later →
        (∀ access ∈ reads, access.toWrite = none) →
        (later.processes reader).attached = true →
        (ReadsBack later reader write ↔ write.key.bytes.length ≤ 15)) ∧
      ∀ reader key,
        (final.processes reader).attached = true →
        (ReturnsOwn (acceptedWrites accesses) final reader key ↔
          NoSlotPasses (acceptedWrites accesses) key) := by
  have held := accessRun_holds fresh run
  refine ⟨?_, fun reader key attached => returnsOwn_iff held attached⟩
  intro write after reads later reader step onward onlyReads attached
  exact readsBack_iff fresh run step onward onlyReads attached

/-- Process 1 writes the key `"k"`, and nobody gets a value for `"q"`. -/
theorem accepted_writes_read_back_sample :
    ReadsBack (kvStoreWrite freshSystem 1 (some sampleWrite.key) (some sampleWrite.value)
        sampleWrite.stack).2 0 sampleWrite ∧
      ReturnsOwn [] freshSystem 0 ⟨[113], by decide⟩ := by
  have both := accepted_writes_read_back_iff freshSystem freshSystem [] (fun _ => rfl) .stop
  refine ⟨(both.1 sampleWrite _ [] _ 0 rfl .stop (by simp) rfl).mpr (by decide), ?_⟩
  exact (both.2 0 ⟨[113], by decide⟩ rfl).mpr (Or.inr ⟨Or.inl (by decide), by decide⟩)

/-- A key of 16 letters. -/
def longKey : CString :=
  ⟨List.replicate 16 97, by decide⟩

/--
A write with a key of 16 letters is not read back, and a fresh store has values for the
empty key, which nobody can write.
-/
theorem long_key_and_empty_key :
    (∃ after,
      kvStoreWrite freshSystem 1 (some longKey) (some sampleWrite.value) sampleWrite.stack =
          (0, after) ∧
        kvStoreReadAll after 0 (some longKey) = none) ∧
      kvStoreReadAll freshSystem 0 (some ⟨[], by simp⟩) ≠ none := by
  constructor
  · let write : Write := { sampleWrite with key := longKey }
    have step : AccessStep freshSystem (.write write)
        (kvStoreWrite freshSystem 1 (some longKey) (some sampleWrite.value) sampleWrite.stack).2 :=
      rfl
    refine ⟨_, step, ?_⟩
    have held := accessRun_holds (fun _ => rfl) (Run.extend .stop step)
      (hash longKey bucketCount)
    rw [kvStoreReadAll_eq rfl, held.long_key_absent (by decide), if_pos rfl]
  · rw [kvStoreReadAll_eq rfl, if_neg]
    · simp
    · exact (emptyBucket_holdsWrites.storedValues_ne_nil_iff).mpr (Or.inl ⟨rfl, by decide⟩)

end Sysprog.Kv
