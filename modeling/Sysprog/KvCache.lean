import Sysprog.KvHistory

namespace Sysprog.Kv

open CStrings CountedLoop Execution

/-!
# The cache of `kv_store_read`

A process caches pointers to the slots of one key.  Here is what filling the cache
leaves in it, and what the three ways through `kv_store_read` return.
-/

/-! ## Slots of a key -/

/-- The slot holds the key. -/
def Matches (p : Bucket) (key : CString) (slot : Nat) : Prop :=
  strncmp keyCount (p.keys slot) key.bytes = 0

instance (p : Bucket) (key : CString) : DecidablePred (Matches p key) :=
  fun slot => inferInstanceAs (Decidable (strncmp keyCount (p.keys slot) key.bytes = 0))

/-- The slots of a key among the `count` oldest, oldest first. -/
def oldestSlots (p : Bucket) (key : CString) (count : Nat) : List Nat :=
  (List.range count).filterMap fun i =>
    if Matches p key (bucketSize - i - 1) then some (bucketSize - i - 1) else none

/-- The slots of a key, oldest first. -/
def matchingSlots (p : Bucket) (key : CString) : List Nat :=
  oldestSlots p key bucketSize

theorem oldestSlots_succ (p : Bucket) (key : CString) (count : Nat) :
    oldestSlots p key (count + 1) =
      if Matches p key (bucketSize - count - 1) then
        oldestSlots p key count ++ [bucketSize - count - 1]
      else
        oldestSlots p key count := by
  rw [oldestSlots, List.range_succ, List.filterMap_append, ← oldestSlots]
  by_cases held : Matches p key (bucketSize - count - 1) <;> simp [held]

/-- The values of a key, oldest first. -/
def storedValues (p : Bucket) (key : CString) : List (List UInt8) :=
  (matchingSlots p key).map fun slot => strndup keySize (p.values slot)

/-- Which slots match depends on the keys alone. -/
theorem matchingSlots_congr
    {p other : Bucket}
    {key : CString}
    (same : other.keys = p.keys) :
    matchingSlots other key = matchingSlots p key := by
  cases p
  cases other
  subst same
  rfl

theorem matches_of_mem
    {p : Bucket}
    {key : CString}
    {slot : Nat}
    (member : slot ∈ matchingSlots p key) :
    Matches p key slot ∧ slot < bucketSize := by
  obtain ⟨i, inRange, kept⟩ := List.mem_filterMap.mp member
  have inside := List.mem_range.mp inRange
  by_cases held : Matches p key (bucketSize - i - 1)
  · rw [if_pos held, Option.some.injEq] at kept
    subst slot
    exact ⟨held, by omega⟩
  · simp [if_neg held] at kept

/-- Keys that fit a slot are told apart by every slot. -/
theorem Matches.unique
    {p : Bucket}
    {first second : CString}
    {slot : Nat}
    (firstHeld : Matches p first slot)
    (secondHeld : Matches p second slot)
    (firstShort : first.bytes.length ≤ 15)
    (secondShort : second.bytes.length ≤ 15) :
    first = second := by
  have whole : ∀ {key : CString}, key.bytes.length ≤ 15 →
      content keyCount key.bytes = key.bytes := by
    intro key short
    rw [content_of_noNul key.noNul]
    exact List.take_of_length_le (by unfold keyCount; omega)
  have same := ((strncmp_eq_zero_iff _ _ _).mp firstHeld).symm.trans
    ((strncmp_eq_zero_iff _ _ _).mp secondHeld)
  rw [whole firstShort, whole secondShort] at same
  cases first
  cases second
  simpa using same

/-- The loop of `kv_store_read_all` collects the stored values. -/
theorem collected_eq (p : Bucket) (key : CString) :
    (forLoop bucketSize [] fun i collected =>
      if strncmp keyCount (p.keys (bucketSize - i - 1)) key.bytes = 0 then
        collected ++ [strndup keySize (p.values (bucketSize - i - 1))]
      else
        collected) =
      storedValues p key := by
  rw [forLoop_collect, storedValues, matchingSlots, oldestSlots, List.map_filterMap]
  apply List.filterMap_congr
  intro i _
  by_cases held : Matches p key (bucketSize - i - 1)
  · rw [if_pos held]
    exact if_pos held
  · rw [if_neg held]
    exact if_neg held

/-- `kv_store_read_all` returns the stored values, or `NULL` when there are none. -/
theorem kvStoreReadAll_eq
    {system : System}
    {process : Nat}
    {key : CString}
    (attached : (system.processes process).attached = true) :
    kvStoreReadAll system process (some key) =
      if storedValues (system.buckets (hash key bucketCount)) key = [] then none
      else some (storedValues (system.buckets (hash key bucketCount)) key) := by
  simp only [kvStoreReadAll, attached, Bool.true_eq_false, ↓reduceIte, collected_eq]

/-- What a bucket stores of a key are the recent writes to it. -/
theorem storedValues_eq_recent
    {p : Bucket}
    {history : List Write}
    {key : CString}
    (held : HoldsWrites p (bucketWrites history (hash key bucketCount)))
    (keysShort : ∀ write ∈ history, write.key.bytes.length ≤ 15)
    (nonempty : 1 ≤ key.bytes.length)
    (short : key.bytes.length ≤ 15) :
    storedValues p key = recentValues history key := by
  rw [← collected_eq]
  exact collected_recent held keysShort nonempty short

/-! ## Filling the cache -/

/-- Storing to the first places of an array in order. -/
def storeAll (array : Nat → Option SlotRef) (slots : List SlotRef) : Nat → Option SlotRef :=
  fun place => if place < slots.length then slots[place]? else array place

theorem storeAll_concat (array : Nat → Option SlotRef) (slots : List SlotRef) (last : SlotRef) :
    Function.update (storeAll array slots) slots.length (some last) =
      storeAll array (slots ++ [last]) := by
  funext place
  by_cases atEnd : place = slots.length
  · subst place
    simp [storeAll]
  · rw [Function.update_of_ne atEnd]
    simp only [storeAll, List.length_append, List.length_singleton]
    by_cases early : place < slots.length
    · rw [if_pos early, if_pos (by omega), List.getElem?_append_left early]
    · rw [if_neg early, if_neg (by omega)]

/-- The locals of the loop once it has found these slots. -/
def Cache.scanned (cache : Cache) (slots : List SlotRef) : Scan where
  cacheKey := slots.getLast?.or cache.cacheKey
  cacheData := storeAll cache.cacheData slots
  l := slots.length

/-- What the loop of `kv_store_read` leaves behind. -/
theorem scanBucket_eq (p : Bucket) (k : Nat) (key : CString) (cache : Cache) :
    scanBucket p k key cache = cache.scanned ((matchingSlots p key).map (SlotRef.mk k)) := by
  have rounds : ∀ count,
      forLoop count { cacheKey := cache.cacheKey, cacheData := cache.cacheData, l := 0 }
          (scanSlot p k key) =
        cache.scanned ((oldestSlots p key count).map (SlotRef.mk k)) := by
    intro count
    induction count with
    | zero =>
        have untouched : storeAll cache.cacheData [] = cache.cacheData := by
          funext place
          simp [storeAll]
        simp [forLoop, oldestSlots, Cache.scanned, untouched]
    | succ count inductionHypothesis =>
        rw [forLoop_succ, inductionHypothesis, oldestSlots_succ]
        by_cases held : Matches p key (bucketSize - count - 1)
        · rw [if_pos held, List.map_append]
          rw [Matches] at held
          simp only [scanSlot, held, ↓reduceIte, Cache.scanned, storeAll_concat, List.map_cons,
            List.map_nil, List.getLast?_append, List.getLast?_singleton, Option.some_or,
            List.length_append, List.length_singleton]
        · rw [if_neg held]
          rw [Matches] at held
          simp only [scanSlot, held, ↓reduceIte]
  exact rounds bucketSize

/-- What filling the cache leaves in it: the slots of the key, then `NULL`. -/
def Cache.filled (cache : Cache) (slots : List SlotRef) : Cache where
  cacheValid := true
  cacheIdx := if slots.length > 0 then 1 else 0
  cacheData := fun place => if place ≤ slots.length then slots[place]? else cache.cacheData place
  cacheKey := slots.getLast?.or cache.cacheKey

/-- The slots of a key as the cache points to them. -/
def System.slotsOf (system : System) (key : CString) : List SlotRef :=
  (matchingSlots (system.buckets (hash key bucketCount)) key).map
    (SlotRef.mk (hash key bucketCount))

/-- The values of a key are those at its slots. -/
theorem System.storedValues_eq (system : System) (key : CString) :
    storedValues (system.buckets (hash key bucketCount)) key =
      (system.slotsOf key).map fun slot => strndup keySize (system.valueAt slot) := by
  rw [System.slotsOf, List.map_map]
  rfl

/-- A scan returns the oldest value of the key and caches its slots. -/
theorem readScanned_eq (system : System) (process : Nat) (key : CString) :
    readScanned system process key =
      ((storedValues (system.buckets (hash key bucketCount)) key).head?,
        { buckets :=
            Function.update system.buckets (hash key bucketCount)
              { system.buckets (hash key bucketCount) with cacheValid := true }
          processes :=
            Function.update system.processes process
              { system.processes process with
                cache := (system.processes process).cache.filled (system.slotsOf key) } }) := by
  have ended : ∀ (array : Nat → Option SlotRef) (slots : List SlotRef),
      Function.update (storeAll array slots) slots.length none =
        fun place => if place ≤ slots.length then slots[place]? else array place := by
    intro array slots
    funext place
    by_cases last : place = slots.length
    · subst place
      simp
    · rw [Function.update_of_ne last, storeAll]
      by_cases early : place < slots.length
      · rw [if_pos early, if_pos (by omega)]
      · rw [if_neg early, if_neg (by omega)]
  simp only [readScanned, scanBucket_eq, Cache.scanned, ended]
  refine Prod.ext ?_ rfl
  simp only [storedValues]
  cases found : matchingSlots (system.buckets (hash key bucketCount)) key with
  | nil => simp
  | cons slot rest => simp [System.valueAt]

/-! ## The ways through `kv_store_read` -/

/-- The caches of the bucket and the process are valid and hold the key. -/
def Hits (system : System) (process : Nat) (key : CString) : Prop :=
  (system.buckets (hash key bucketCount)).cacheValid = true ∧
    (system.processes process).cache.cacheValid = true ∧
    ∃ slot,
      (system.processes process).cache.cacheKey = some slot ∧
        Matches (system.buckets slot.bucket) key slot.slot

/-- Both flags are set and there is no key to compare with. -/
def Faults (system : System) (process : Nat) (key : CString) : Prop :=
  (system.buckets (hash key bucketCount)).cacheValid = true ∧
    (system.processes process).cache.cacheValid = true ∧
    (system.processes process).cache.cacheKey = none

variable {system : System} {process : Nat} {key : CString}

theorem kvStoreRead_of_hits
    (attached : (system.processes process).attached = true)
    (hits : Hits system process key) :
    kvStoreRead system process (some key) = some (readCached system process) := by
  obtain ⟨shared, own, slot, place, held⟩ := hits
  rw [Matches] at held
  simp only [kvStoreRead, attached, shared, own, place, held, Bool.true_eq_false, and_self,
    ↓reduceIte]

theorem kvStoreRead_of_misses
    (attached : (system.processes process).attached = true)
    (misses : ¬ Hits system process key)
    (noFault : ¬ Faults system process key) :
    kvStoreRead system process (some key) = some (readScanned system process key) := by
  simp only [kvStoreRead, attached, Bool.true_eq_false, ↓reduceIte]
  split
  · rename_i valid
    cases place : (system.processes process).cache.cacheKey with
    | none =>
        exact absurd ⟨valid.1, valid.2, place⟩ noFault
    | some slot =>
        have other : ¬ Matches (system.buckets slot.bucket) key slot.slot :=
          fun held => misses ⟨valid.1, valid.2, slot, place, held⟩
        rw [Matches] at other
        simp only [other, ↓reduceIte]
  · rfl

/-- A read faults exactly when it compares with a null key. -/
theorem kvStoreRead_eq_none_iff
    (attached : (system.processes process).attached = true) :
    kvStoreRead system process (some key) = none ↔ Faults system process key := by
  constructor
  · intro faulted
    by_contra noFault
    by_cases hits : Hits system process key
    · rw [kvStoreRead_of_hits attached hits] at faulted
      simp at faulted
    · rw [kvStoreRead_of_misses attached hits noFault] at faulted
      simp at faulted
  · rintro ⟨shared, own, place⟩
    simp only [kvStoreRead, attached, shared, own, place, Bool.true_eq_false, and_self,
      ↓reduceIte]

/-- Every read that returns was served from the cache or scanned the bucket. -/
theorem kvStoreRead_cases
    {after : System}
    {result : Option (List UInt8)}
    (attached : (system.processes process).attached = true)
    (returned : kvStoreRead system process (some key) = some (result, after)) :
    (Hits system process key ∧ readCached system process = (result, after)) ∨
      (¬ Hits system process key ∧
        ¬ Faults system process key ∧
        readScanned system process key = (result, after)) := by
  by_cases hits : Hits system process key
  · rw [kvStoreRead_of_hits attached hits, Option.some.injEq] at returned
    exact Or.inl ⟨hits, returned⟩
  · by_cases faults : Faults system process key
    · rw [(kvStoreRead_eq_none_iff attached).mpr faults] at returned
      simp at returned
    · rw [kvStoreRead_of_misses attached hits faults, Option.some.injEq] at returned
      exact Or.inr ⟨hits, faults, returned⟩

/-- A cache hit changes nothing but the position in the cache. -/
theorem readCached_eq (system : System) (process : Nat) :
    readCached system process =
      let cache := (system.processes process).cache
      ((cache.cacheData cache.cacheIdx).map fun slot => strndup keySize (system.valueAt slot),
        { system with
          processes :=
            Function.update system.processes process
              { system.processes process with
                cache :=
                  { cache with
                    cacheIdx :=
                      if (cache.cacheData cache.cacheIdx).isSome then cache.cacheIdx + 1
                      else 0 } } }) := by
  simp only [readCached]
  split
  · rename_i ended
    simp [ended]
  · rename_i slot place
    simp [place]

/-- A read leaves the slots of every bucket as they are. -/
theorem kvStoreRead_slots
    {after : System}
    {result : Option (List UInt8)}
    (returned : kvStoreRead system process (some key) = some (result, after))
    (bucket : Nat) :
    (after.buckets bucket).keys = (system.buckets bucket).keys ∧
      (after.buckets bucket).values = (system.buckets bucket).values := by
  by_cases attached : (system.processes process).attached = true
  · rcases kvStoreRead_cases attached returned with ⟨_, cached⟩ | ⟨_, _, scanned⟩
    · rw [readCached_eq, Prod.mk.injEq] at cached
      rw [← cached.2]
      exact ⟨rfl, rfl⟩
    · rw [readScanned_eq, Prod.mk.injEq] at scanned
      rw [← scanned.2]
      by_cases here : bucket = hash key bucketCount
      · subst bucket
        simp
      · simp [Function.update_of_ne here]
  · have detached : (system.processes process).attached = false := by simpa using attached
    simp only [kvStoreRead, detached, ↓reduceIte, Option.some.injEq, Prod.mk.injEq] at returned
    rw [← returned.2]
    exact ⟨rfl, rfl⟩

end Sysprog.Kv
