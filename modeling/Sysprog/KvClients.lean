import Sysprog.KvReads

namespace Sysprog.Kv

open CStrings Execution

/-!
# Several clients read one store

The flag of a bucket tells every process that its cache is good, but each process has
its own cache: a read of one process makes the stale cache of another one valid again.
A value that is served from a cache filled after the last write to the bucket is a value
of the key that is still stored.
-/

/--
The store with its clients.  The two counters are not part of the program: how many
writes each bucket has had, and how many it had when a process last filled its cache.
-/
@[ext] structure Shared where
  system : System
  writes : Nat → Nat
  filledAt : Nat → Nat → Nat

/-- A store nobody has called yet. -/
def Shared.initial (system : System) : Shared where
  system := system
  writes := fun _ => 0
  filledAt := fun _ _ => 0

/-- A call by one of the clients. -/
structure ClientCall where
  client : Nat
  call : Call

/-- What a call does to the counters. -/
def Counts (before after : Shared) (client : Nat) : Call → Prop
  | .write write =>
      after.writes =
          Function.update before.writes (hash write.key bucketCount)
            (before.writes (hash write.key bucketCount) + 1) ∧
        after.filledAt = before.filledAt
  | .read key _ =>
      after.writes = before.writes ∧
        (Hits before.system client key → after.filledAt = before.filledAt) ∧
        (¬ Hits before.system client key →
          after.filledAt = Function.update before.filledAt client before.writes)

/-- One call of one client. -/
def SharedStep (before : Shared) (entry : ClientCall) (after : Shared) : Prop :=
  CallStep entry.client before.system entry.call after.system ∧
    Counts before after entry.client entry.call

/--
A read that is served from the cache finds that nobody has written to the bucket since
the cache was filled.
-/
def FreshHit (before : Shared) (entry : ClientCall) : Prop :=
  match entry.call with
  | .write _ => True
  | .read key _ =>
      Hits before.system entry.client key →
      before.filledAt entry.client (hash key bucketCount) =
        before.writes (hash key bucketCount)

/-- The calls of a history without their clients. -/
def callsOf (history : List ClientCall) : List Call :=
  history.map ClientCall.call

/-! ## Slots and writes -/

/-- A slot holds a key exactly when the write it stores is to that key. -/
theorem HoldsWrites.matches_iff
    {p : Bucket}
    {writes : List Write}
    {key : CString}
    {slot : Nat}
    (held : HoldsWrites p writes)
    (keysShort : ∀ write ∈ writes, write.key.bytes.length ≤ 15)
    (nonempty : 1 ≤ key.bytes.length)
    (short : key.bytes.length ≤ 15)
    (inside : slot < bucketSize) :
    Matches p key slot ↔ writes.reverse[slot]?.map Write.key = some key := by
  have textShort :
      ∀ text ∈ writes.reverse[slot]?.map Write.key, text.bytes.length ≤ 15 := by
    intro text member
    obtain ⟨write, found, rfl⟩ := Option.map_eq_some_iff.mp member
    exact keysShort write (List.mem_reverse.mp (List.mem_of_getElem? found))
  rw [Matches, held.keys slot inside, slot_matches_iff nonempty short _ textShort]

/-- A slot that holds a key holds a write to it. -/
theorem HoldsWrites.of_matches
    {p : Bucket}
    {writes : List Write}
    {key : CString}
    {slot : Nat}
    (held : HoldsWrites p writes)
    (keysShort : ∀ write ∈ writes, write.key.bytes.length ≤ 15)
    (nonempty : 1 ≤ key.bytes.length)
    (short : key.bytes.length ≤ 15)
    (inside : slot < bucketSize)
    (matching : Matches p key slot) :
    ∃ write ∈ writes,
      write.key = key ∧ strndup keySize (p.values slot) = write.value.bytes.take 31 := by
  rw [held.matches_iff keysShort nonempty short inside] at matching
  obtain ⟨write, found, sameKey⟩ := Option.map_eq_some_iff.mp matching
  refine ⟨write, List.mem_reverse.mp (List.mem_of_getElem? found), sameKey, ?_⟩
  rw [held.values slot inside, found, Option.map_some, strndup_slotOf]

/-- The slots of a key are the places of the writes to it. -/
theorem HoldsWrites.matchingSlots_eq
    {p : Bucket}
    {writes : List Write}
    {key : CString}
    (held : HoldsWrites p writes)
    (keysShort : ∀ write ∈ writes, write.key.bytes.length ≤ 15)
    (nonempty : 1 ≤ key.bytes.length)
    (short : key.bytes.length ≤ 15) :
    matchingSlots p key =
      (List.range bucketSize).filterMap fun i =>
        if writes.reverse[bucketSize - i - 1]?.map Write.key = some key then
          some (bucketSize - i - 1)
        else
          none := by
  rw [matchingSlots, oldestSlots]
  apply List.filterMap_congr
  intro i member
  have inside := List.mem_range.mp member
  simp only [held.matches_iff keysShort nonempty short (show bucketSize - i - 1 < bucketSize by
    omega)]

/-- A bucket holds only keys that hash to it. -/
theorem hash_of_matches
    {system : System}
    {writes : List Write}
    {key : CString}
    {bucket slot : Nat}
    (held : HoldsHistory writes system)
    (keysShort : ∀ write ∈ writes, write.key.bytes.length ≤ 15)
    (nonempty : 1 ≤ key.bytes.length)
    (short : key.bytes.length ≤ 15)
    (inside : slot < bucketSize)
    (matching : Matches (system.buckets bucket) key slot) :
    hash key bucketCount = bucket := by
  have inBucket : ∀ write ∈ bucketWrites writes bucket, write.key.bytes.length ≤ 15 :=
    fun write member => keysShort write (List.mem_of_mem_filter member)
  obtain ⟨write, member, rfl, _⟩ :=
    (held bucket).of_matches inBucket nonempty short inside matching
  simpa using (List.mem_filter.mp member).2

/-! ## Coherent caches -/

/-- The cache points to slots of the key, unless the bucket was written to since. -/
structure Points
    (shared : Shared)
    (client : Nat)
    (key : CString)
    (slots : List SlotRef)
    (slot : SlotRef) : Prop where
  short : key.bytes.length ≤ 15
  place : (shared.system.processes client).cache.cacheKey = some slot
  last : slot ∈ slots
  bucket : ∀ other ∈ slots, other.bucket = hash key bucketCount ∧ other.slot < bucketSize
  data :
    ∀ place,
      place ≤ slots.length →
      (shared.system.processes client).cache.cacheData place = slots[place]?
  index : (shared.system.processes client).cache.cacheIdx ≤ slots.length
  fresh :
    shared.filledAt client (hash key bucketCount) = shared.writes (hash key bucketCount) →
    ∀ other ∈ slots, Matches (shared.system.buckets (hash key bucketCount)) key other.slot

/-- The cache holds nothing, or it points to the slots of some key. -/
def CacheCoherent (shared : Shared) (client : Nat) : Prop :=
  (shared.system.processes client).cache.cacheValid = true →
  ((shared.system.processes client).cache.cacheData 0 = none ∧
      (shared.system.processes client).cache.cacheIdx = 0) ∨
    ∃ key slots slot, Points shared client key slots slot

/-- The store and all caches after a history. -/
structure Coherent (history : List ClientCall) (shared : Shared) : Prop where
  attached : ∀ client, (shared.system.processes client).attached = true
  held : HoldsHistory (writesOf (callsOf history)) shared.system
  short : ∀ write ∈ writesOf (callsOf history), write.key.bytes.length ≤ 15
  counted : ∀ client bucket, shared.filledAt client bucket ≤ shared.writes bucket
  caches : ∀ client, CacheCoherent shared client

section Steps

variable
  {before after : Shared}
  {history : List ClientCall}
  {client : Nat}
  {key : CString}
  {result : Option (List UInt8)}
  {slots : List SlotRef}
  {slot : SlotRef}

/-- A cache stays coherent while the buckets it is fresh for keep their keys. -/
theorem CacheCoherent.keep
    (coherent : CacheCoherent before client)
    (process : after.system.processes client = before.system.processes client)
    (fresh :
      ∀ bucket,
        after.filledAt client bucket = after.writes bucket →
        before.filledAt client bucket = before.writes bucket ∧
          (after.system.buckets bucket).keys = (before.system.buckets bucket).keys) :
    CacheCoherent after client := by
  intro valid
  rw [process] at valid
  rcases coherent valid with empty | ⟨key, slots, slot, points⟩
  · left
    rw [process]
    exact empty
  · right
    refine ⟨key, slots, slot, points.short, by rw [process]; exact points.place, points.last,
      points.bucket, by rw [process]; exact points.data, by rw [process]; exact points.index, ?_⟩
    intro current other member
    obtain ⟨wasCurrent, sameKeys⟩ := fresh _ current
    rw [Matches, sameKeys]
    exact points.fresh wasCurrent other member

/-- A write makes no cache incoherent. -/
theorem Coherent.write
    {write : Write}
    (coherent : Coherent history before)
    (step : SharedStep before ⟨client, .write write⟩ after)
    (other : Nat) :
    CacheCoherent after other := by
  obtain ⟨⟨rfl, step⟩, counts⟩ := step
  obtain ⟨writes, filledAt⟩ := counts
  by_cases own : other = write.process
  · subst own
    intro valid
    rw [step.after_eq] at valid
    simp [resetCache] at valid
  · apply (coherent.caches other).keep
    · rw [step.after_eq]
      exact Function.update_of_ne own _ _
    · intro bucket current
      rw [writes, filledAt] at current
      have counted := coherent.counted other bucket
      by_cases here : bucket = hash write.key bucketCount
      · -- The write has made the cache stale.
        subst here
        rw [Function.update_self] at current
        omega
      · rw [Function.update_of_ne here] at current
        refine ⟨current, ?_⟩
        rw [step.after_eq]
        simp [Function.update_of_ne here]

/-- A read changes its caller's cache and no other process. -/
theorem kvStoreRead_processes
    {system result : System}
    {value : Option (List UInt8)}
    (attached : (system.processes client).attached = true)
    (returned : kvStoreRead system client (some key) = some (value, result)) :
    (∀ other, other ≠ client → result.processes other = system.processes other) ∧
      (result.processes client).attached = true := by
  rcases kvStoreRead_cases attached returned with ⟨_, cached⟩ | ⟨_, _, scanned⟩
  · rw [readCached_eq, Prod.mk.injEq] at cached
    rw [← cached.2]
    exact ⟨fun other different => Function.update_of_ne different _ _, by simpa using attached⟩
  · rw [readScanned_eq, Prod.mk.injEq] at scanned
    rw [← scanned.2]
    exact ⟨fun other different => Function.update_of_ne different _ _, by simpa using attached⟩

/-- Moving on in the cache keeps it coherent. -/
theorem CacheCoherent.advance
    (coherent : CacheCoherent before client)
    (cached : after.system = (readCached before.system client).2)
    (writes : after.writes = before.writes)
    (filledAt : after.filledAt = before.filledAt) :
    CacheCoherent after client := by
  intro valid
  rw [readCached_eq] at cached
  have wasValid : (before.system.processes client).cache.cacheValid = true := by
    rw [cached] at valid
    simpa using valid
  rcases coherent wasValid with ⟨data, index⟩ | ⟨key, slots, slot, points⟩
  · left
    rw [cached]
    simp [data, index]
  · right
    refine ⟨key, slots, slot, points.short, ?_, points.last, points.bucket, ?_, ?_, ?_⟩
    · rw [cached]
      simpa using points.place
    · rw [cached]
      simpa using points.data
    · rw [cached]
      simp only [Function.update_self, points.data _ points.index]
      by_cases inside : (before.system.processes client).cache.cacheIdx < slots.length
      · simp only [List.getElem?_eq_getElem inside, Option.isSome_some, ↓reduceIte]
        exact inside
      · rw [List.getElem?_eq_none (by omega)]
        simp
    · rw [writes, filledAt, cached]
      exact points.fresh

/-- Filling the cache makes it coherent. -/
theorem cacheCoherent_filled
    (short : key.bytes.length ≤ 15)
    (scanned : after.system = (readScanned before.system client key).2) :
    CacheCoherent after client := by
  intro _
  have sameKeys :
      (after.system.buckets (hash key bucketCount)).keys =
        (before.system.buckets (hash key bucketCount)).keys := by
    simp [scanned, readScanned_eq]
  have cache : (after.system.processes client).cache =
      (before.system.processes client).cache.filled (before.system.slotsOf key) := by
    simp [scanned, readScanned_eq]
  rcases List.eq_nil_or_concat (before.system.slotsOf key) with empty | ⟨front, last, shape⟩
  · left
    rw [cache, empty]
    exact ⟨rfl, rfl⟩
  · right
    rw [List.concat_eq_append] at shape
    have members : ∀ other ∈ before.system.slotsOf key,
        other.bucket = hash key bucketCount ∧
          other.slot < bucketSize ∧
          Matches (before.system.buckets (hash key bucketCount)) key other.slot := by
      intro other member
      obtain ⟨place, placeMember, rfl⟩ := List.mem_map.mp member
      obtain ⟨matching, inside⟩ := matches_of_mem placeMember
      exact ⟨rfl, inside, matching⟩
    refine ⟨key, before.system.slotsOf key, last, short, ?_, by simp [shape],
      fun other member => ⟨(members other member).1, (members other member).2.1⟩, ?_, ?_, ?_⟩
    · rw [cache]
      simp [Cache.filled, shape]
    · intro place inside
      rw [cache]
      simp [Cache.filled, inside]
    · rw [cache]
      simp only [Cache.filled]
      split <;> omega
    · intro _ other member
      rw [Matches, sameKeys]
      exact (members other member).2.2

/-- A read makes no cache incoherent. -/
theorem Coherent.read
    (coherent : Coherent history before)
    (step : SharedStep before ⟨client, .read key result⟩ after)
    (other : Nat) :
    CacheCoherent after other := by
  obtain ⟨⟨_, short, returned⟩, writes, hit, miss⟩ := step
  by_cases own : other = client
  · subst own
    rcases kvStoreRead_cases (coherent.attached other) returned with
      ⟨hits, cached⟩ | ⟨misses, _, scanned⟩
    · exact (coherent.caches other).advance (by rw [cached]) writes (hit hits)
    · exact cacheCoherent_filled short (by rw [scanned])
  · apply (coherent.caches other).keep
    · exact (kvStoreRead_processes (coherent.attached client) returned).1 other own
    · intro bucket current
      refine ⟨?_, (kvStoreRead_slots returned bucket).1⟩
      rw [writes] at current
      by_cases hits : Hits before.system client key
      · rwa [hit hits] at current
      · rwa [miss hits, Function.update_of_ne own] at current

/-- Every call keeps the caches coherent. -/
theorem Coherent.step
    {entry : ClientCall}
    (coherent : Coherent history before)
    (step : SharedStep before entry after) :
    Coherent (history ++ [entry]) after := by
  obtain ⟨client, call⟩ := entry
  have calls : callsOf (history ++ [⟨client, call⟩]) = callsOf history ++ [call] := by
    simp [callsOf]
  cases call with
  | write write =>
      have caches := coherent.write step
      obtain ⟨⟨rfl, step⟩, writes, filledAt⟩ := step
      refine ⟨?_, ?_, ?_, ?_, caches⟩
      · intro other
        rw [step.after_eq]
        by_cases own : other = write.process
        · rw [own]
          simpa using coherent.attached write.process
        · simpa [Function.update_of_ne own] using coherent.attached other
      · intro bucket
        rw [calls, writesOf_write, bucketWrites, List.filter_append]
        exact step_holdsWrites (coherent.held bucket) step
      · intro other member
        rw [calls, writesOf_write] at member
        rcases List.mem_append.mp member with member | member
        · exact coherent.short other member
        · rw [List.mem_singleton.mp member]
          exact step.2.1
      · intro other bucket
        have counted := coherent.counted other bucket
        rw [writes, filledAt]
        by_cases here : bucket = hash write.key bucketCount
        · subst here
          rw [Function.update_self]
          omega
        · rw [Function.update_of_ne here]
          exact counted
  | read key result =>
      have caches := coherent.read step
      obtain ⟨⟨_, _, returned⟩, writes, hit, miss⟩ := step
      obtain ⟨others, attached⟩ := kvStoreRead_processes (coherent.attached client) returned
      refine ⟨?_, ?_, ?_, ?_, caches⟩
      · intro other
        by_cases own : other = client
        · rw [own]
          exact attached
        · rw [others other own]
          exact coherent.attached other
      · rw [calls, writesOf_read]
        exact coherent.held.read returned
      · rw [calls, writesOf_read]
        exact coherent.short
      · intro other bucket
        have counted := coherent.counted other bucket
        rw [writes]
        by_cases hits : Hits before.system client key
        · rw [hit hits]
          exact counted
        · rw [miss hits]
          by_cases own : other = client
          · rw [own, Function.update_self]
          · rw [Function.update_of_ne own]
            exact counted

/-- What a fresh read returns is stored under its key. -/
theorem Coherent.read_stored
    {value : List UInt8}
    (coherent : Coherent history before)
    (step : SharedStep before ⟨client, .read key (some value)⟩ after)
    (fresh : FreshHit before ⟨client, .read key (some value)⟩) :
    ∃ slot,
      slot < bucketSize ∧
        Matches (before.system.buckets (hash key bucketCount)) key slot ∧
        strndup keySize ((before.system.buckets (hash key bucketCount)).values slot) =
          value := by
  obtain ⟨⟨nonempty, short, returned⟩, _⟩ := step
  rcases kvStoreRead_cases (coherent.attached client) returned with
    ⟨hits, cached⟩ | ⟨misses, _, scanned⟩
  · have current := fresh hits
    obtain ⟨_, valid, cachedSlot, place, matching⟩ := hits
    rw [readCached_eq, Prod.mk.injEq] at cached
    rcases coherent.caches client valid with ⟨data, index⟩ | ⟨other, slots, slot, points⟩
    · -- An empty cache returns no value.
      simp [data, index] at cached
    · obtain rfl : slot = cachedSlot := by simpa [points.place] using place
      obtain ⟨inBucket, inside⟩ := points.bucket slot points.last
      rw [inBucket] at matching
      have sameBucket := hash_of_matches coherent.held coherent.short nonempty short inside matching
      have held := points.fresh (sameBucket ▸ current)
      obtain rfl := (held slot points.last).unique matching points.short short
      have found := cached.1
      rw [points.data _ points.index] at found
      obtain ⟨served, atIndex, isValue⟩ := Option.map_eq_some_iff.mp found
      have member := List.mem_of_getElem? atIndex
      obtain ⟨servedBucket, servedInside⟩ := points.bucket served member
      refine ⟨served.slot, servedInside, held served member, ?_⟩
      rw [← isValue, System.valueAt, servedBucket]
  · rw [readScanned_eq, Prod.mk.injEq] at scanned
    have member := List.mem_of_mem_head? scanned.1
    obtain ⟨slot, slotMember, isValue⟩ := List.mem_map.mp member
    obtain ⟨matching, inside⟩ := matches_of_mem slotMember
    exact ⟨slot, inside, matching, isValue⟩

end Steps

/-- Every call of a client has one result. -/
theorem sharedStep_functional
    {before first second : Shared}
    {entry : ClientCall}
    (toFirst : SharedStep before entry first)
    (toSecond : SharedStep before entry second) :
    first = second := by
  obtain ⟨firstCall, firstCounts⟩ := toFirst
  obtain ⟨secondCall, secondCounts⟩ := toSecond
  have systems := callStep_functional firstCall secondCall
  obtain ⟨client, call⟩ := entry
  cases call with
  | write write =>
      obtain ⟨firstWrites, firstFilled⟩ := firstCounts
      obtain ⟨secondWrites, secondFilled⟩ := secondCounts
      exact Shared.ext systems (firstWrites.trans secondWrites.symm)
        (firstFilled.trans secondFilled.symm)
  | read key result =>
      obtain ⟨firstWrites, firstHit, firstMiss⟩ := firstCounts
      obtain ⟨secondWrites, secondHit, secondMiss⟩ := secondCounts
      refine Shared.ext systems (firstWrites.trans secondWrites.symm) ?_
      by_cases hits : Hits before.system client key
      · exact (firstHit hits).trans (secondHit hits).symm
      · exact (firstMiss hits).trans (secondMiss hits).symm

theorem coherent_run
    {start : System}
    {history : List ClientCall}
    {final : Shared}
    (fresh : ∀ bucket, start.buckets bucket = emptyBucket)
    (attached : ∀ client, start.processes client = attachedProcess)
    (run : Run SharedStep (Shared.initial start) history final) :
    Coherent history final := by
  have initially : Coherent [] (Shared.initial start) := by
    refine ⟨?_, ?_, by simp [callsOf, writesOf], fun _ _ => Nat.le_refl _, ?_⟩
    · intro client
      simp [Shared.initial, attached, attachedProcess]
    · intro bucket
      simp only [Shared.initial, fresh bucket]
      exact emptyBucket_holdsWrites
    · intro client valid
      simp [Shared.initial, attached, attachedProcess] at valid
  exact run.history initially fun coherent step => coherent.step step

/--
In every run of any number of clients in which no read is served from a cache filled
before a write to the bucket, every value a read returns was written under its key and
is stored in the key's bucket at that moment.
-/
theorem reads_return_stored
    (start : System)
    (history : List ClientCall)
    (fresh : ∀ bucket, start.buckets bucket = emptyBucket)
    (attached : ∀ client, start.processes client = attachedProcess)
    (freshHits :
      StepsSatisfy SharedStep (Shared.initial start) history
        fun before entry _ => FreshHit before entry)
    (earlier : List ClientCall)
    (client : Nat)
    (key : CString)
    (value : List UInt8)
    (later : List ClientCall)
    (before after : Shared)
    (shape : history = earlier ++ ⟨client, .read key (some value)⟩ :: later)
    (run : Run SharedStep (Shared.initial start) earlier before)
    (step : SharedStep before ⟨client, .read key (some value)⟩ after) :
    (∃ write ∈ writesOf (callsOf earlier),
        write.key = key ∧ write.value.bytes.take 31 = value) ∧
      ∃ slot,
        slot < bucketSize ∧
          Matches (before.system.buckets (hash key bucketCount)) key slot ∧
          strndup keySize ((before.system.buckets (hash key bucketCount)).values slot) =
            value := by
  have coherent := coherent_run fresh attached run
  obtain ⟨slot, inside, matching, isValue⟩ :=
    coherent.read_stored step (freshHits earlier _ later before after shape run step)
  obtain ⟨⟨nonempty, short, _⟩, _⟩ := step
  have inBucket :
      ∀ write ∈ bucketWrites (writesOf (callsOf earlier)) (hash key bucketCount),
        write.key.bytes.length ≤ 15 :=
    fun write member => coherent.short write (List.mem_of_mem_filter member)
  obtain ⟨write, member, sameKey, stored⟩ :=
    (coherent.held _).of_matches inBucket nonempty short inside matching
  exact ⟨⟨write, List.mem_of_mem_filter member, sameKey, stored.symm.trans isValue⟩,
    slot, inside, matching, isValue⟩

/-! ## Sample runs -/

/-- The clients after a write. -/
def Shared.afterWrite (shared : Shared) (write : Write) : Shared where
  system :=
    (kvStoreWrite shared.system write.process (some write.key) (some write.value)
      write.stack).2
  writes :=
    Function.update shared.writes (hash write.key bucketCount)
      (shared.writes (hash write.key bucketCount) + 1)
  filledAt := shared.filledAt

/-- The clients after a read that fills the cache. -/
def Shared.afterScan (shared : Shared) (client : Nat) (key : CString) : Shared where
  system := (readScanned shared.system client key).2
  writes := shared.writes
  filledAt := Function.update shared.filledAt client shared.writes

section Samples

variable {shared : Shared} {client other : Nat} {key : CString} {write : Write}

theorem sharedStep_write
    (nonempty : 1 ≤ write.key.bytes.length)
    (short : write.key.bytes.length ≤ 15)
    (attached : (shared.system.processes write.process).attached = true) :
    SharedStep shared ⟨write.process, .write write⟩ (shared.afterWrite write) := by
  have accepted :
      ¬ ((shared.system.processes write.process).attached = false ∨
        write.key.bytes.length < 1) := by
    rintro (detached | empty)
    · simp [attached] at detached
    · omega
  refine ⟨⟨rfl, nonempty, short, ?_⟩, rfl, rfl⟩
  simp only [Shared.afterWrite, kvStoreWrite, accepted, ↓reduceIte]

theorem sharedStep_scan
    (nonempty : 1 ≤ key.bytes.length)
    (short : key.bytes.length ≤ 15)
    (attached : (shared.system.processes client).attached = true)
    (invalid : (shared.system.processes client).cache.cacheValid = false) :
    SharedStep shared ⟨client, .read key (readScanned shared.system client key).1⟩
      (shared.afterScan client key) := by
  have misses : ¬ Hits shared.system client key := by
    rintro ⟨_, own, _⟩
    simp [invalid] at own
  have noFault : ¬ Faults shared.system client key := by
    rintro ⟨_, own, _⟩
    simp [invalid] at own
  refine ⟨⟨nonempty, short, ?_⟩, ?_, ?_, ?_⟩
  · rw [kvStoreRead_of_misses attached misses noFault]
    simp only [Shared.afterScan, Prod.mk.eta]
  · simp only [Shared.afterScan]
  · exact fun hits => absurd hits misses
  · simp only [Shared.afterScan, implies_true]

theorem sharedStep_hit
    {result : Option (List UInt8)}
    (nonempty : 1 ≤ key.bytes.length)
    (short : key.bytes.length ≤ 15)
    (attached : (shared.system.processes client).attached = true)
    (hits : Hits shared.system client key)
    (served : (readCached shared.system client).1 = result) :
    ∃ after, SharedStep shared ⟨client, .read key result⟩ after := by
  refine ⟨{ shared with system := (readCached shared.system client).2 },
    ⟨nonempty, short, ?_⟩, rfl, fun _ => rfl, fun misses => absurd hits misses⟩
  rw [kvStoreRead_of_hits attached hits, ← served]

@[simp] theorem afterWrite_processes (different : other ≠ write.process) :
    (shared.afterWrite write).system.processes other = shared.system.processes other := by
  simp only [Shared.afterWrite, kvStoreWrite]
  split
  · rfl
  · simp [Function.update_of_ne different]

@[simp] theorem afterWrite_attached :
    ((shared.afterWrite write).system.processes write.process).attached =
      (shared.system.processes write.process).attached := by
  simp only [Shared.afterWrite, kvStoreWrite]
  split
  · rfl
  · simp

@[simp] theorem afterScan_processes (different : other ≠ client) :
    (shared.afterScan client key).system.processes other = shared.system.processes other := by
  simp [Shared.afterScan, readScanned_eq, Function.update_of_ne different]

end Samples

/-- The key `"ax"`. -/
def sharedKey : CString :=
  ⟨[97, 120], by simp⟩

/-- The key `"bW"`, which has the bucket of `"ax"`. -/
def collidingKey : CString :=
  ⟨[98, 87], by simp⟩

/-- A write by client 1 of a value of one byte. -/
def clientWrite (key : CString) (value : CString) : Write where
  process := 1
  key := key
  value := value
  stack := ⟨fun _ => [], fun _ => []⟩

/-- The value `"v"`. -/
def sharedValue : CString :=
  sampleWrite.value

/-- The value `"w"`. -/
def collidingValue : CString :=
  ⟨[119], by simp⟩

/-- Client 1 has written `"v"` to `"ax"` three times. -/
def writtenClients : Shared :=
  (((Shared.initial freshSystem).afterWrite (clientWrite sharedKey sharedValue)).afterWrite
    (clientWrite sharedKey sharedValue)).afterWrite (clientWrite sharedKey sharedValue)

/-- Then client 0 reads `"ax"`. -/
def cachedClients : Shared :=
  writtenClients.afterScan 0 sharedKey

/-- Then client 1 writes `"w"` to `"bW"` and `"v"` to `"ax"`. -/
def rewrittenClients : Shared :=
  (cachedClients.afterWrite (clientWrite collidingKey collidingValue)).afterWrite
    (clientWrite sharedKey sharedValue)

/-- Then client 2 reads `"ax"`. -/
def staleClients : Shared :=
  rewrittenClients.afterScan 2 sharedKey

/-- The calls that lead to the first read. -/
def writtenCalls : List ClientCall :=
  [⟨1, .write (clientWrite sharedKey sharedValue)⟩,
    ⟨1, .write (clientWrite sharedKey sharedValue)⟩,
    ⟨1, .write (clientWrite sharedKey sharedValue)⟩]

theorem writtenClients_run :
    Run SharedStep (Shared.initial freshSystem) writtenCalls writtenClients :=
  (((Run.stop).extend
    (@sharedStep_write _ (clientWrite sharedKey sharedValue) (by decide) (by decide) rfl)).extend
    (@sharedStep_write _ (clientWrite sharedKey sharedValue) (by decide) (by decide)
      afterWrite_attached)).extend
    (@sharedStep_write _ (clientWrite sharedKey sharedValue) (by decide) (by decide)
      (afterWrite_attached.trans afterWrite_attached))

theorem writtenClients_reader (reader : Nat) (different : reader ≠ 1) :
    writtenClients.system.processes reader = attachedProcess := by
  rw [writtenClients, afterWrite_processes different, afterWrite_processes different,
    afterWrite_processes different]
  rfl

theorem writtenClients_slots :
    writtenClients.system.slotsOf sharedKey =
      [2, 1, 0].map (SlotRef.mk (hash sharedKey bucketCount)) := by
  have coherent := coherent_run (fun _ => rfl) (fun _ => rfl) writtenClients_run
  rw [System.slotsOf, (coherent.held _).matchingSlots_eq
    (fun write member => coherent.short write (List.mem_of_mem_filter member)) (by decide)
    (by decide)]
  decide +kernel

/-- Client 0 has cached three slots of `"ax"`, and its next read is of slot 1. -/
theorem cachedClients_run :
    Run SharedStep (Shared.initial freshSystem)
      (writtenCalls ++
        [⟨0, .read sharedKey (readScanned writtenClients.system 0 sharedKey).1⟩])
      cachedClients :=
  writtenClients_run.extend
    (sharedStep_scan (by decide) (by decide)
      (by rw [writtenClients_reader 0 (by decide)]; rfl)
      (by rw [writtenClients_reader 0 (by decide)]; rfl))

/-- The first read of client 0 returns the value written. -/
theorem cachedClients_value :
    (readScanned writtenClients.system 0 sharedKey).1 = some [118] := by
  have coherent := coherent_run (fun _ => rfl) (fun _ => rfl) writtenClients_run
  rw [readScanned_eq, storedValues_eq_recent (coherent.held _) coherent.short (by decide)
    (by decide)]
  decide

theorem reads_return_stored_cachedClients :
    ∃ write ∈ writesOf (callsOf writtenCalls),
      write.key = sharedKey ∧ write.value.bytes.take 31 = [118] := by
  have run := cachedClients_run
  rw [cachedClients_value] at run
  obtain ⟨before, leading, read⟩ := run.of_concat
  have writesOnly : StepsSatisfy SharedStep (Shared.initial freshSystem) writtenCalls
      fun before entry _ => FreshHit before entry := by
    intro earlier entry later state after shape _ _
    have member : entry ∈ writtenCalls := by simp [shape]
    simp only [writtenCalls, List.mem_cons, List.not_mem_nil, or_false, or_self] at member
    subst member
    trivial
  have freshHits : StepsSatisfy SharedStep (Shared.initial freshSystem)
      (writtenCalls ++ [⟨0, .read sharedKey (some [118])⟩])
      fun before entry _ => FreshHit before entry := by
    apply writesOnly.concat
    intro state after reached _
    obtain rfl := reached.unique writtenClients_run sharedStep_functional
    rintro ⟨_, valid, _⟩
    rw [writtenClients_reader 0 (by decide)] at valid
    exact absurd valid (by decide)
  exact (reads_return_stored freshSystem _ (fun _ => rfl) (fun _ => rfl) freshHits
    writtenCalls 0 sharedKey [118] [] before cachedClients rfl leading read).1

/-- The calls that lead to the stale cache, with what the reads returned. -/
def staleCalls (first second : Option (List UInt8)) : List ClientCall :=
  writtenCalls ++
    [⟨0, .read sharedKey first⟩, ⟨1, .write (clientWrite collidingKey collidingValue)⟩,
      ⟨1, .write (clientWrite sharedKey sharedValue)⟩, ⟨2, .read sharedKey second⟩]

theorem staleClients_run :
    ∃ first second,
      Run SharedStep (Shared.initial freshSystem) (staleCalls first second) staleClients := by
  have writer : (cachedClients.system.processes 1).attached = true := by
    have coherent := coherent_run (fun _ => rfl) (fun _ => rfl) cachedClients_run
    exact coherent.attached 1
  have reader : rewrittenClients.system.processes 2 = attachedProcess := by
    rw [rewrittenClients, afterWrite_processes (by decide), afterWrite_processes (by decide),
      cachedClients, afterScan_processes (by decide), writtenClients_reader 2 (by decide)]
  refine ⟨(readScanned writtenClients.system 0 sharedKey).1,
    (readScanned rewrittenClients.system 2 sharedKey).1, ?_⟩
  have rewritten := (cachedClients_run.extend
    (@sharedStep_write _ (clientWrite collidingKey collidingValue) (by decide) (by decide)
      writer)).extend
    (@sharedStep_write _ (clientWrite sharedKey sharedValue) (by decide) (by decide)
      (afterWrite_attached.trans writer))
  exact rewritten.extend (sharedStep_scan (by decide) (by decide)
    (congrArg Process.attached reader)
    (congrArg (fun process => process.cache.cacheValid) reader))

/-- The cache of client 0 is the one it filled before the last writes. -/
theorem staleClients_cache :
    (staleClients.system.processes 0).cache =
      attachedProcess.cache.filled
        ([2, 1, 0].map (SlotRef.mk (hash sharedKey bucketCount))) := by
  rw [staleClients, afterScan_processes (by decide), rewrittenClients,
    afterWrite_processes (by decide), afterWrite_processes (by decide), cachedClients,
    Shared.afterScan, readScanned_eq, writtenClients_slots,
    writtenClients_reader 0 (by decide)]
  simp

/--
Client 0 caches three slots of `"ax"`; client 1 writes to `"bW"` and `"ax"`, which share
a bucket, and client 2 reads.  The next read of `"ax"` by client 0 returns the value
written under `"bW"`.
-/
theorem stale_cache_returns_other_key :
    ∃ first second after,
      Run SharedStep (Shared.initial freshSystem) (staleCalls first second) staleClients ∧
        SharedStep staleClients ⟨0, .read sharedKey (some [119])⟩ after ∧
        ∀ write ∈ writesOf (callsOf (staleCalls first second)),
          write.key = sharedKey → write.value.bytes.take 31 ≠ [119] := by
  obtain ⟨first, second, run⟩ := staleClients_run
  have coherent := coherent_run (fun _ => rfl) (fun _ => rfl) run
  have writes : writesOf (callsOf (staleCalls first second)) =
      [clientWrite sharedKey sharedValue, clientWrite sharedKey sharedValue,
        clientWrite sharedKey sharedValue, clientWrite collidingKey collidingValue,
        clientWrite sharedKey sharedValue] :=
    rfl
  have held := coherent.held (hash sharedKey bucketCount)
  have short := coherent.short
  rw [writes] at held short
  have hits : Hits staleClients.system 0 sharedKey := by
    refine ⟨?_, ?_, ⟨hash sharedKey bucketCount, 0⟩, ?_, ?_⟩
    · simp [staleClients, Shared.afterScan, readScanned_eq]
    · rw [staleClients_cache]
      rfl
    · rw [staleClients_cache]
      rfl
    · rw [held.matches_iff (fun write member => short write (List.mem_of_mem_filter member))
        (by decide) (by decide) (by decide)]
      decide
  have value : strndup keySize (staleClients.system.valueAt ⟨hash sharedKey bucketCount, 1⟩) =
      [119] := by
    rw [System.valueAt, held.values 1 (by decide)]
    exact strndup_slotOf collidingValue
  have served : (readCached staleClients.system 0).1 = some [119] := by
    rw [readCached_eq, staleClients_cache, ← value]
    rfl
  obtain ⟨after, step⟩ :=
    sharedStep_hit (by decide) (by decide) (coherent.attached 0) hits served
  refine ⟨first, second, after, run, step, ?_⟩
  rw [writes]
  decide

end Sysprog.Kv
