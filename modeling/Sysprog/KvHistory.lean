import Sysprog.KvModel

namespace Sysprog.Kv

open CStrings CountedLoop Execution

/-!
# Reading back the writes of a bucket

The slots of a bucket are the writes to it, newest first, as far as they fit.
`kv_store_read_all` walks the slots backwards, so it returns the values of the
requested key among the last writes to the bucket, oldest first.
-/

/-- One call of `kv_store_write`. -/
structure Write where
  process : Nat
  key : CString
  value : CString
  stack : StackContents

/-- A write with a key of 1 to 15 bytes that returns success. -/
def Step (before : System) (write : Write) (after : System) : Prop :=
  1 ≤ write.key.bytes.length ∧ write.key.bytes.length ≤ 15 ∧
    kvStoreWrite before write.process (some write.key) (some write.value) write.stack =
      (0, after)

/-- The writes of a history that went to one bucket, in order. -/
def bucketWrites (history : List Write) (bucket : Nat) : List Write :=
  history.filter fun write => hash write.key bucketCount = bucket

/-- The last `count` elements of a list, in order. -/
def lastOf {Item : Type} (count : Nat) (items : List Item) : List Item :=
  items.drop (items.length - count)

/--
The values a reader of `key` is owed: those written to `key` among the last writes to
its bucket, cut to 31 bytes.
-/
def recentValues (history : List Write) (key : CString) : List (List UInt8) :=
  ((lastOf bucketSize (bucketWrites history (hash key bucketCount))).filter
      fun write => write.key = key).map
    fun write => write.value.bytes.take 31

/-! ## One write -/

/-- A slot that holds the first bytes of an optional string, padded with NUL. -/
def slotOf (width : Nat) (text : Option CString) : List UInt8 :=
  strncpy width ((text.map fun string => string.bytes.take (width - 1)).getD [])

theorem slotOf_none (width : Nat) :
    slotOf width none = List.replicate width 0 := by
  simp [slotOf, strncpy, content]

@[simp] theorem strncpy_slotOf (width : Nat) (text : Option CString) :
    strncpy width (slotOf width text) = slotOf width text := by
  simp [slotOf]

/-- Moving the slots of an array: the new string in front, every other one place back. -/
theorem shiftSlots_apply
    {width : Nat}
    (positive : 0 < width)
    (slots uninitialized : Nat → List UInt8)
    (newest : CString)
    {slot : Nat}
    (inside : slot < bucketSize) :
    shiftSlots width slots uninitialized newest slot =
      if slot = 0 then
        slotOf width (some newest)
      else
        strncpy width (strncpy width (slots (slot - 1))) := by
  by_cases first : slot = 0
  · subst slot
    obtain ⟨limit, rfl⟩ : ∃ limit, width = limit + 1 := ⟨width - 1, by omega⟩
    simp [shiftSlots, slotOf, strncpy_terminated newest.noNul]
  · obtain ⟨previous, rfl⟩ : ∃ previous, slot = previous + 1 := ⟨slot - 1, by omega⟩
    have inTemporary : previous < bucketSize := by omega
    have moved : previous < bucketSize - 1 := by omega
    simp only [shiftSlots, first, ↓reduceIte, Nat.add_sub_cancel]
    rw [Function.update_of_ne first,
      fill_target (fun _ _ _ _ same => Nat.add_right_cancel same) moved]
    have copied :=
      @fill_target _ id (fun k => strncpy width (slots k)) uninitialized bucketSize previous
        (fun _ _ _ _ same => same) inTemporary
    rw [id] at copied
    rw [copied]

/-- The slots of a bucket are the writes to it, newest first. -/
structure HoldsWrites (bucket : Bucket) (writes : List Write) : Prop where
  keys :
    ∀ slot, slot < bucketSize →
      bucket.keys slot = slotOf keyCount (writes.reverse[slot]?.map Write.key)
  values :
    ∀ slot, slot < bucketSize →
      bucket.values slot = slotOf keySize (writes.reverse[slot]?.map Write.value)

/-- A fresh bucket holds no writes. -/
theorem emptyBucket_holdsWrites : HoldsWrites emptyBucket [] where
  keys := by
    intro slot _
    simp [emptyBucket, slotOf_none]
  values := by
    intro slot _
    simp [emptyBucket, slotOf_none]

/-- Moving one slot array accounts for one more write. -/
private theorem shiftSlots_writes
    {width : Nat}
    {slots uninitialized : Nat → List UInt8}
    {writes : List Write}
    {write : Write}
    {text : Write → CString}
    (positive : 0 < width)
    (held :
      ∀ slot, slot < bucketSize →
        slots slot = slotOf width (writes.reverse[slot]?.map text))
    {slot : Nat}
    (inside : slot < bucketSize) :
    shiftSlots width slots uninitialized (text write) slot =
      slotOf width ((writes ++ [write]).reverse[slot]?.map text) := by
  rw [shiftSlots_apply positive slots uninitialized (text write) inside]
  cases slot with
  | zero =>
      simp
  | succ previous =>
      simp [held previous (by omega)]

/-- What a successful write does to the store and its caller. -/
theorem accepted_eq
    {before after : System}
    {write : Write}
    (accepted :
      kvStoreWrite before write.process (some write.key) (some write.value) write.stack =
        (0, after)) :
    after =
      { buckets :=
          Function.update before.buckets (hash write.key bucketCount)
            { keys :=
                shiftSlots keyCount (before.buckets (hash write.key bucketCount)).keys
                  write.stack.keys write.key
              values :=
                shiftSlots keySize (before.buckets (hash write.key bucketCount)).values
                  write.stack.values write.value
              cacheValid := false }
        processes :=
          Function.update before.processes write.process
            { before.processes write.process with
              cache := resetCache (before.processes write.process).cache } } := by
  simp only [kvStoreWrite] at accepted
  split at accepted
  · simp at accepted
  · exact (Prod.mk.inj accepted).2.symm

/-- The same for a step. -/
theorem Step.after_eq
    {before after : System}
    {write : Write}
    (step : Step before write after) :
    after =
      { buckets :=
          Function.update before.buckets (hash write.key bucketCount)
            { keys :=
                shiftSlots keyCount (before.buckets (hash write.key bucketCount)).keys
                  write.stack.keys write.key
              values :=
                shiftSlots keySize (before.buckets (hash write.key bucketCount)).values
                  write.stack.values write.value
              cacheValid := false }
        processes :=
          Function.update before.processes write.process
            { before.processes write.process with
              cache := resetCache (before.processes write.process).cache } } :=
  accepted_eq step.2.2

/-- A successful write adds itself to its bucket and leaves the others. -/
theorem accepted_holdsWrites
    {before after : System}
    {write : Write}
    {writes : List Write}
    {bucket : Nat}
    (held : HoldsWrites (before.buckets bucket) writes)
    (accepted :
      kvStoreWrite before write.process (some write.key) (some write.value) write.stack =
        (0, after)) :
    HoldsWrites (after.buckets bucket)
      (writes ++ bucketWrites [write] bucket) := by
  rw [accepted_eq accepted]
  by_cases here : hash write.key bucketCount = bucket
  · subst bucket
    have added : bucketWrites [write] (hash write.key bucketCount) = [write] := by
      simp [bucketWrites]
    rw [added]
    constructor
    · intro slot inside
      simp only [Function.update_self]
      exact shiftSlots_writes (by decide) held.keys inside
    · intro slot inside
      simp only [Function.update_self]
      exact shiftSlots_writes (by decide) held.values inside
  · have unaffected : bucketWrites [write] bucket = [] := by
      simp [bucketWrites, here]
    rw [unaffected, List.append_nil]
    simp only [Function.update_of_ne (Ne.symm here)]
    exact held

/-- The same for a step. -/
theorem step_holdsWrites
    {before after : System}
    {write : Write}
    {writes : List Write}
    {bucket : Nat}
    (held : HoldsWrites (before.buckets bucket) writes)
    (step : Step before write after) :
    HoldsWrites (after.buckets bucket)
      (writes ++ bucketWrites [write] bucket) :=
  accepted_holdsWrites held step.2.2

/-! ## Whole histories -/

/-- Every bucket of a system holds exactly the writes of a history to it. -/
def HoldsHistory (history : List Write) (system : System) : Prop :=
  ∀ bucket, HoldsWrites (system.buckets bucket) (bucketWrites history bucket)

/-- After any history on a fresh store every bucket holds the writes to it. -/
theorem run_holdsHistory
    {start final : System}
    {history : List Write}
    (fresh : ∀ bucket, start.buckets bucket = emptyBucket)
    (run : Run Step start history final) :
    HoldsHistory history final := by
  have initially : HoldsHistory [] start := by
    intro bucket
    rw [fresh bucket]
    exact emptyBucket_holdsWrites
  apply run.history initially
  intro earlier before write after held step bucket
  rw [bucketWrites, List.filter_append]
  exact step_holdsWrites (held bucket) step

/-- Reading the first `count` positions of a list yields its first entries. -/
private theorem forward_walk
    {Item : Type}
    (count : Nat)
    (entries : List Item) :
    (List.range count).filterMap (fun i => entries[i]?) = entries.take count := by
  induction count with
  | zero =>
      rfl
  | succ count inductionHypothesis =>
      rw [List.range_succ, List.filterMap_append, inductionHypothesis, List.take_add_one]
      cases found : entries[count]? <;> simp [found]

/-- The entries a backward walk over the slots meets, oldest first. -/
private theorem backward_walk
    {Item : Type}
    (size : Nat)
    (items : List Item) :
    (List.range size).filterMap (fun i => items.reverse[size - i - 1]?) =
      lastOf size items := by
  have mirrored :
      (List.range size).map (fun i => size - i - 1) = (List.range size).reverse := by
    apply List.ext_getElem
    · simp
    · intro index _ inside
      simp only [List.length_reverse, List.length_range] at inside
      simp [List.getElem_reverse]
      omega
  calc
    (List.range size).filterMap (fun i => items.reverse[size - i - 1]?) =
        ((List.range size).map (fun i => size - i - 1)).filterMap
          (fun i => items.reverse[i]?) := by
      rw [List.filterMap_map]
      rfl
    _ = (items.reverse.take size).reverse := by
      rw [mirrored, List.filterMap_reverse, forward_walk]
    _ = lastOf size items := by
      rw [List.take_reverse, List.reverse_reverse, lastOf]

/-- A slot matches a short key exactly when the write it holds used that key. -/
theorem slot_matches_iff
    {key : CString}
    (nonempty : 1 ≤ key.bytes.length)
    (short : key.bytes.length ≤ 15)
    (text : Option CString)
    (textShort : ∀ held ∈ text, held.bytes.length ≤ 15) :
    strncmp keyCount (slotOf keyCount text) key.bytes = 0 ↔ text = some key := by
  have wanted : content keyCount key.bytes = key.bytes := by
    rw [content_of_noNul key.noNul]
    exact List.take_of_length_le (by unfold keyCount; omega)
  rw [strncmp_eq_zero_iff, slotOf, content_strncpy, wanted]
  cases text with
  | none =>
      have different : [] ≠ key.bytes := by
        intro empty
        rw [← empty] at nonempty
        simp at nonempty
      simpa [content] using different
  | some held =>
      have heldShort := textShort held rfl
      have whole : held.bytes.take (keyCount - 1) = held.bytes :=
        List.take_of_length_le heldShort
      simp only [Option.map_some, Option.getD_some, whole, Option.some.injEq]
      rw [content_of_noNul held.noNul,
        List.take_of_length_le (by unfold keyCount; omega)]
      constructor
      · intro same
        cases held
        cases key
        simpa using same
      · intro same
        rw [same]

/-- Every key of a run has at most 15 bytes. -/
private theorem run_keys_short
    {start final : System}
    {history : List Write}
    (run : Run Step start history final) :
    ∀ write ∈ history, write.key.bytes.length ≤ 15 := by
  induction run with
  | stop =>
      simp
  | extend earlier last inductionHypothesis =>
      intro write member
      rcases List.mem_append.mp member with before | here
      · exact inductionHypothesis write before
      · rw [List.mem_singleton.mp here]
        exact last.2.1

/-- A stored value reads back as the written value cut to 31 bytes. -/
theorem strndup_slotOf (value : CString) :
    strndup keySize (slotOf keySize (some value)) = value.bytes.take 31 := by
  have noNul : (0 : UInt8) ∉ value.bytes.take 31 :=
    fun member => value.noNul (List.mem_of_mem_take member)
  have slotShape : slotOf keySize (some value) = strncpy keySize (value.bytes.take 31) :=
    rfl
  rw [strndup, slotShape, content_strncpy, content_of_noNul noNul]
  exact List.take_of_length_le (by rw [List.length_take, keySize]; omega)

/-- What the reading loop takes from one slot of a bucket. -/
private theorem slot_result
    {bucket : Bucket}
    {writes : List Write}
    {key : CString}
    {slot : Nat}
    (held : HoldsWrites bucket writes)
    (keysShort : ∀ write ∈ writes, write.key.bytes.length ≤ 15)
    (nonempty : 1 ≤ key.bytes.length)
    (short : key.bytes.length ≤ 15)
    (inside : slot < bucketSize) :
    (if strncmp keyCount (bucket.keys slot) key.bytes = 0 then
        some (strndup keySize (bucket.values slot))
      else
        none) =
      writes.reverse[slot]?.bind fun write =>
        if write.key = key then some (write.value.bytes.take 31) else none := by
  have textShort :
      ∀ text ∈ writes.reverse[slot]?.map Write.key, text.bytes.length ≤ 15 := by
    intro text member
    obtain ⟨write, found, rfl⟩ := Option.map_eq_some_iff.mp member
    exact keysShort write (List.mem_reverse.mp (List.mem_of_getElem? found))
  have matching := slot_matches_iff nonempty short _ textShort
  rw [held.keys slot inside, held.values slot inside]
  cases found : writes.reverse[slot]? with
  | none =>
      rw [found] at matching
      have differs : ¬ strncmp keyCount (slotOf keyCount none) key.bytes = 0 :=
        fun equal => Option.some_ne_none key (matching.mp equal).symm
      simp [differs]
  | some write =>
      rw [found, Option.map_some, Option.some.injEq] at matching
      simp only [Option.map_some, Option.bind_some, matching, strndup_slotOf]

/-- The reading loop collects the recent values of a key. -/
theorem collected_recent
    {bucket : Bucket}
    {history : List Write}
    {key : CString}
    (held : HoldsWrites bucket (bucketWrites history (hash key bucketCount)))
    (keysShort : ∀ write ∈ history, write.key.bytes.length ≤ 15)
    (nonempty : 1 ≤ key.bytes.length)
    (short : key.bytes.length ≤ 15) :
    (forLoop bucketSize [] fun i collected =>
      if strncmp keyCount (bucket.keys (bucketSize - i - 1)) key.bytes = 0 then
        collected ++ [strndup keySize (bucket.values (bucketSize - i - 1))]
      else
        collected) =
      recentValues history key := by
  have writesShort :
      ∀ write ∈ bucketWrites history (hash key bucketCount),
        write.key.bytes.length ≤ 15 :=
    fun write member => keysShort write (List.mem_of_mem_filter member)
  rw [forLoop_collect]
  calc
    _ = (List.range bucketSize).filterMap fun i =>
          (bucketWrites history (hash key bucketCount)).reverse[bucketSize - i - 1]?.bind
            fun write =>
              if write.key = key then some (write.value.bytes.take 31) else none := by
      apply List.filterMap_congr
      intro i member
      have inside := List.mem_range.mp member
      exact slot_result held writesShort nonempty short (by omega)
    _ = (lastOf bucketSize (bucketWrites history (hash key bucketCount))).filterMap
          fun write =>
            if write.key = key then some (write.value.bytes.take 31) else none := by
      rw [← backward_walk, List.filterMap_filterMap]
    _ = recentValues history key := by
      rw [recentValues, ← List.filterMap_eq_map', List.filterMap_filter]
      simp only [decide_eq_true_eq]

/--
After every history of writes with keys of 1 to 15 bytes on a fresh store, and for
every such key, `kv_store_read_all` by an attached process returns exactly, oldest
first, the values cut to 31 bytes of the writes to that key among the last 512
writes to its bucket, and `NULL` when there are none.
-/
theorem readAll_returns_recent
    (start final : System)
    (history : List Write)
    (fresh : ∀ bucket, start.buckets bucket = emptyBucket)
    (run : Run Step start history final)
    (reader : Nat)
    (attached : (final.processes reader).attached = true)
    (key : CString)
    (nonempty : 1 ≤ key.bytes.length)
    (short : key.bytes.length ≤ 15) :
    kvStoreReadAll final reader (some key) =
      if recentValues history key = [] then none else some (recentValues history key) := by
  have held := run_holdsHistory fresh run (hash key bucketCount)
  have collected := collected_recent held (run_keys_short run) nonempty short
  simp only [kvStoreReadAll, attached, Bool.true_eq_false, ↓reduceIte, collected]

/-- A fresh store with every process attached. -/
def freshSystem : System where
  buckets := fun _ => emptyBucket
  processes := fun _ =>
    { attached := true
      cache :=
        { cacheValid := false
          cacheIdx := 0
          cacheData := fun _ => none
          cacheKey := none } }

/-- The write of the value `"v"` to the key `"k"` by process 1. -/
def sampleWrite : Write where
  process := 1
  key := ⟨[107], by decide⟩
  value := ⟨[118], by decide⟩
  stack := ⟨fun _ => [], fun _ => []⟩

/-- Process 0 reads back what process 1 wrote. -/
theorem readAll_returns_sampleWrite :
    kvStoreReadAll
        (kvStoreWrite freshSystem 1 (some sampleWrite.key) (some sampleWrite.value)
          sampleWrite.stack).2
        0 (some sampleWrite.key) =
      some [[118]] :=
  (readAll_returns_recent freshSystem _ [sampleWrite] (fun _ => rfl)
    (Run.extend .stop ⟨by decide, by decide, rfl⟩) 0 rfl sampleWrite.key (by decide)
    (by decide)).trans (by decide)

end Sysprog.Kv
