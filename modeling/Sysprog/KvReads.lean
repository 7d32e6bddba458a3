import Sysprog.KvCache

namespace Sysprog.Kv

open CStrings Execution

/-!
# One client reads its store

Consecutive reads of a key are to walk through its values, return `NULL` once and
start again.  A read of an absent key fills the cache with nothing and leaves the key
the cache was filled for, so that the next read of that key is served from an empty
cache: that is the one way a read goes wrong.
-/

/-- One call of the client; a read is noted with what it returned. -/
inductive Call where
  | write (write : Write)
  | read (key : CString) (result : Option (List UInt8))

/-- The calls of one client with keys of 1 to 15 bytes; a read that faults does not return. -/
def CallStep (client : Nat) (before : System) : Call → System → Prop
  | .write write, after => write.process = client ∧ Step before write after
  | .read key result, after =>
      1 ≤ key.bytes.length ∧
        key.bytes.length ≤ 15 ∧
        kvStoreRead before client (some key) = some (result, after)

/-- The writes of a history. -/
def writesOf (history : List Call) : List Write :=
  history.filterMap fun
    | .write write => some write
    | .read _ _ => none

/-- The keys read since the last write, newest first. -/
def readsSinceWrite (history : List Call) : List CString :=
  history.foldl
    (fun reads call =>
      match call with
      | .write _ => []
      | .read key _ => key :: reads)
    []

/-- How many reads of the key directly precede. -/
def repeats (history : List Call) (key : CString) : Nat :=
  ((readsSinceWrite history).takeWhile fun other => other = key).length

/-- Walking through the values again and again, with one `NULL` after each round. -/
def cycle (values : List (List UInt8)) (position : Nat) : Option (List UInt8) :=
  values[position % (values.length + 1)]?

/-- The key has a value in the store. -/
def Stored (history : List Call) (key : CString) : Prop :=
  recentValues (writesOf history) key ≠ []

/--
A stored key was read, and only these reads came after it, newest first: there was no
write since, and no read of another stored key.
-/
def Since (history : List Call) (key : CString) (newer : List CString) : Prop :=
  Stored history key ∧
    (∃ older, readsSinceWrite history = newer ++ key :: older) ∧
    ∀ other ∈ newer, other = key ∨ ¬ Stored history other

/--
A stored key was read, then an absent one, with no write since and no read of another
stored key.
-/
def Spoiled (history : List Call) (key : CString) : Prop :=
  ∃ newer, Since history key newer ∧ ∃ other ∈ newer, ¬ Stored history other

/-- The key is the last stored one that was read since the last write. -/
def Recent (history : List Call) (key : CString) : Prop :=
  ∃ newer, Since history key newer

/-! ## Histories that grow -/

section Growth

variable {history : List Call} {write : Write} {key other : CString}
  {result : Option (List UInt8)} {newer : List CString}

@[simp] theorem writesOf_write :
    writesOf (history ++ [.write write]) = writesOf history ++ [write] := by
  simp [writesOf]

@[simp] theorem writesOf_read : writesOf (history ++ [.read key result]) = writesOf history := by
  simp [writesOf]

@[simp] theorem readsSinceWrite_write : readsSinceWrite (history ++ [.write write]) = [] := by
  simp [readsSinceWrite]

@[simp] theorem readsSinceWrite_read :
    readsSinceWrite (history ++ [.read key result]) = key :: readsSinceWrite history := by
  simp [readsSinceWrite]

@[simp] theorem stored_read :
    Stored (history ++ [.read key result]) other ↔ Stored history other := by
  simp [Stored]

theorem not_recent_write : ¬ Recent (history ++ [.write write]) key := by
  rintro ⟨newer, _, ⟨older, shape⟩, _⟩
  simp at shape

theorem Spoiled.recent (spoiled : Spoiled history key) : Recent history key := by
  obtain ⟨newer, since, _⟩ := spoiled
  exact ⟨newer, since⟩

theorem since_read :
    Since (history ++ [.read other result]) key newer ↔
      (newer = [] ∧ other = key ∧ Stored history key) ∨
        ∃ rest,
          newer = other :: rest ∧ (other = key ∨ ¬ Stored history other) ∧
            Since history key rest := by
  simp only [Since, stored_read, readsSinceWrite_read]
  cases newer with
  | nil =>
      simp only [List.nil_append, List.cons.injEq, List.not_mem_nil, false_implies, implies_true,
        and_true, true_and, reduceCtorEq, false_and, exists_false, or_false]
      constructor
      · rintro ⟨stored, older, same, _⟩
        exact ⟨same, stored⟩
      · rintro ⟨same, stored⟩
        exact ⟨stored, _, same, rfl⟩
  | cons first rest =>
      simp only [List.cons_append, List.cons.injEq, List.mem_cons, forall_eq_or_imp, reduceCtorEq,
        false_and, false_or]
      constructor
      · rintro ⟨stored, ⟨older, rfl, shape⟩, last, only⟩
        exact ⟨rest, ⟨rfl, rfl⟩, last, stored, ⟨older, shape⟩, only⟩
      · rintro ⟨_, ⟨rfl, rfl⟩, last, stored, ⟨older, shape⟩, only⟩
        exact ⟨stored, ⟨older, rfl, shape⟩, last, only⟩

/-- After a read of a stored key, that key is the recent one. -/
theorem recent_read_stored (stored : Stored history other) :
    Recent (history ++ [.read other result]) key ↔ other = key := by
  simp only [Recent, since_read]
  constructor
  · rintro ⟨newer, ⟨_, same, _⟩ | ⟨rest, _, same | absent, _⟩⟩
    · exact same
    · exact same
    · exact absurd stored absent
  · rintro rfl
    exact ⟨[], Or.inl ⟨rfl, rfl, stored⟩⟩

/-- A read of an absent key leaves the recent key. -/
theorem recent_read_absent (absent : ¬ Stored history other) :
    Recent (history ++ [.read other result]) key ↔ Recent history key := by
  simp only [Recent, since_read]
  constructor
  · rintro ⟨newer, ⟨_, rfl, stored⟩ | ⟨rest, _, _, since⟩⟩
    · exact absurd stored absent
    · exact ⟨rest, since⟩
  · rintro ⟨newer, since⟩
    exact ⟨other :: newer, Or.inr ⟨newer, rfl, Or.inr absent, since⟩⟩

/-- A read of a stored key spoils nothing. -/
theorem spoiled_read_stored (stored : Stored history other) :
    Spoiled (history ++ [.read other result]) key ↔ other = key ∧ Spoiled history key := by
  simp only [Spoiled, since_read, stored_read]
  constructor
  · rintro ⟨newer, ⟨rfl, _⟩ | ⟨rest, rfl, last, since⟩, another, member, absent⟩
    · simp at member
    · refine ⟨last.resolve_right (not_not.mpr stored), rest, since, another, ?_, absent⟩
      rcases List.mem_cons.mp member with rfl | member
      · exact absurd stored absent
      · exact member
  · rintro ⟨rfl, newer, since, another, member, absent⟩
    exact ⟨other :: newer, Or.inr ⟨newer, rfl, Or.inl rfl, since⟩, another,
      List.mem_cons_of_mem _ member, absent⟩

/-- A read of an absent key spoils the recent key. -/
theorem spoiled_read_absent (absent : ¬ Stored history other) :
    Spoiled (history ++ [.read other result]) key ↔ Recent history key := by
  simp only [Spoiled, since_read, stored_read]
  constructor
  · rintro ⟨newer, ⟨rfl, _⟩ | ⟨rest, _, _, since⟩, another, member, _⟩
    · simp at member
    · exact ⟨rest, since⟩
  · rintro ⟨newer, since⟩
    exact ⟨other :: newer, Or.inr ⟨newer, rfl, Or.inr absent, since⟩, other,
      List.mem_cons_self, absent⟩

@[simp] theorem repeats_write : repeats (history ++ [.write write]) key = 0 := by
  simp [repeats]

@[simp] theorem repeats_read_same :
    repeats (history ++ [.read key result]) key = repeats history key + 1 := by
  simp [repeats]

theorem repeats_read_other (different : other ≠ key) :
    repeats (history ++ [.read other result]) key = 0 := by
  simp [repeats, different]

/-- A stored key that was just read is the recent one. -/
theorem recent_of_repeats
    (stored : Stored history key)
    (positive : repeats history key ≠ 0) :
    Recent history key := by
  cases reads : readsSinceWrite history with
  | nil =>
      simp [repeats, reads] at positive
  | cons first older =>
      by_cases same : first = key
      · subst same
        exact ⟨[], stored, ⟨older, by simp [reads]⟩, by simp⟩
      · simp [repeats, reads, same] at positive

end Growth

/-! ## The cache after a history -/

/-- The cache was filled for the key, and nothing has changed in its bucket. -/
structure FilledFor (system : System) (client : Nat) (history : List Call) (key : CString) :
    Prop where
  short : key.bytes.length ≤ 15
  own : (system.processes client).cache.cacheValid = true
  shared : (system.buckets (hash key bucketCount)).cacheValid = true
  place :
    ∃ slot,
      (system.processes client).cache.cacheKey = some slot ∧
        Matches (system.buckets slot.bucket) key slot.slot
  recent : ∀ other, Recent history other ↔ other = key

/-- The cache holds the slots of the key, and its index counts the last reads of it. -/
structure Serves (system : System) (client : Nat) (history : List Call) (key : CString) :
    Prop where
  unspoiled : ¬ Spoiled history key
  data :
    ∀ place,
      place ≤ (system.slotsOf key).length →
      (system.processes client).cache.cacheData place = (system.slotsOf key)[place]?
  index :
    (system.processes client).cache.cacheIdx =
      repeats history key % ((system.slotsOf key).length + 1)

/-- The cache was filled with nothing for another key since. -/
structure Emptied (system : System) (client : Nat) (history : List Call) (key : CString) :
    Prop where
  spoiled : Spoiled history key
  data : (system.processes client).cache.cacheData 0 = none
  index : (system.processes client).cache.cacheIdx = 0

/-- What the cache holds after a history. -/
inductive CacheState (system : System) (client : Nat) (history : List Call) : Prop where
  | keyless
      (noKey : (system.processes client).cache.cacheKey = none)
      (unread : ∀ key, ¬ Recent history key)
  | keyed
      (key : CString)
      (filled : FilledFor system client history key)
      (content : Serves system client history key ∨ Emptied system client history key)

/-- The store and the cache of the client after a history. -/
structure Tracks (client : Nat) (history : List Call) (system : System) : Prop where
  attached : (system.processes client).attached = true
  held : HoldsHistory (writesOf history) system
  short : ∀ write ∈ writesOf history, write.key.bytes.length ≤ 15
  cache : CacheState system client history

section Reading

variable
  {system after : System}
  {client : Nat}
  {history : List Call}
  {key : CString}
  {result : Option (List UInt8)}

/-- The stored values are the recent ones of the history. -/
theorem Tracks.storedValues_eq
    (tracks : Tracks client history system)
    (nonempty : 1 ≤ key.bytes.length)
    (short : key.bytes.length ≤ 15) :
    storedValues (system.buckets (hash key bucketCount)) key =
      recentValues (writesOf history) key :=
  storedValues_eq_recent (tracks.held _) tracks.short nonempty short

theorem Tracks.stored_iff
    (tracks : Tracks client history system)
    (nonempty : 1 ≤ key.bytes.length)
    (short : key.bytes.length ≤ 15) :
    Stored history key ↔ system.slotsOf key ≠ [] := by
  rw [Stored, ← tracks.storedValues_eq nonempty short]
  simp [storedValues, System.slotsOf]

/-- The key the cache was filled for is served from the cache. -/
theorem FilledFor.hits (filled : FilledFor system client history key) :
    Hits system client key := by
  obtain ⟨slot, place, held⟩ := filled.place
  exact ⟨filled.shared, filled.own, slot, place, held⟩

/-- A key that is served from the cache is the one it was filled for. -/
theorem CacheState.of_hits
    (state : CacheState system client history)
    (short : key.bytes.length ≤ 15)
    (hits : Hits system client key) :
    FilledFor system client history key ∧
      (Serves system client history key ∨ Emptied system client history key) := by
  obtain ⟨_, _, slot, place, held⟩ := hits
  cases state with
  | keyless noKey _ =>
      rw [noKey] at place
      simp at place
  | keyed other filled content =>
      obtain ⟨otherSlot, otherPlace, otherHeld⟩ := filled.place
      obtain rfl : otherSlot = slot := by simpa [otherPlace] using place
      obtain rfl := otherHeld.unique held filled.short short
      exact ⟨filled, content⟩

/-- A key that is not served from the cache is not the recent one. -/
theorem CacheState.not_recent
    (state : CacheState system client history)
    (misses : ¬ Hits system client key) :
    ¬ Recent history key := by
  intro recent
  cases state with
  | keyless _ unread => exact unread key recent
  | keyed other filled _ =>
      obtain rfl := (filled.recent key).mp recent
      exact misses filled.hits

/-- A read returns the next value in turn, unless the key is spoiled. -/
theorem Tracks.read_result
    (tracks : Tracks client history system)
    (nonempty : 1 ≤ key.bytes.length)
    (short : key.bytes.length ≤ 15)
    (returned : kvStoreRead system client (some key) = some (result, after)) :
    (¬ Spoiled history key →
        result =
          cycle (storedValues (system.buckets (hash key bucketCount)) key)
            (repeats history key)) ∧
      (Spoiled history key → result = none) := by
  have length :
      (storedValues (system.buckets (hash key bucketCount)) key).length =
        (system.slotsOf key).length := by
    rw [system.storedValues_eq, List.length_map]
  rcases kvStoreRead_cases tracks.attached returned with ⟨hits, cached⟩ | ⟨misses, _, scanned⟩
  · rw [readCached_eq, Prod.mk.injEq] at cached
    obtain ⟨rfl, _⟩ := cached
    obtain ⟨filled, serves | emptied⟩ := tracks.cache.of_hits short hits
    · refine ⟨fun _ => ?_, fun spoiled => absurd spoiled serves.unspoiled⟩
      have inside : repeats history key % ((system.slotsOf key).length + 1) ≤
          (system.slotsOf key).length :=
        Nat.le_of_lt_succ (Nat.mod_lt _ (Nat.succ_pos _))
      rw [serves.index, serves.data _ inside, cycle, length, system.storedValues_eq,
        List.getElem?_map]
    · refine ⟨fun unspoiled => absurd emptied.spoiled unspoiled, fun _ => ?_⟩
      rw [emptied.index, emptied.data]
      rfl
  · rw [readScanned_eq, Prod.mk.injEq] at scanned
    obtain ⟨rfl, _⟩ := scanned
    have unread := tracks.cache.not_recent misses
    refine ⟨fun _ => ?_, fun spoiled => absurd spoiled.recent unread⟩
    by_cases stored : Stored history key
    · have first : repeats history key = 0 := by
        by_contra positive
        exact unread (recent_of_repeats stored positive)
      rw [first, cycle, Nat.zero_mod, List.head?_eq_getElem?]
    · have empty : storedValues (system.buckets (hash key bucketCount)) key = [] := by
        rw [tracks.storedValues_eq nonempty short]
        exact not_not.mp stored
      simp [empty, cycle]

/-- A read leaves what the buckets hold. -/
theorem HoldsHistory.read
    {writes : List Write}
    (held : HoldsHistory writes system)
    (returned : kvStoreRead system client (some key) = some (result, after)) :
    HoldsHistory writes after := by
  intro bucket
  obtain ⟨sameKeys, sameValues⟩ := kvStoreRead_slots returned bucket
  refine ⟨?_, ?_⟩
  · rw [sameKeys]
    exact (held bucket).keys
  · rw [sameValues]
    exact (held bucket).values

/-- The slots of a key do not depend on the processes. -/
@[simp] theorem slotsOf_withProcesses (system : System) (processes : Nat → Process) :
    System.slotsOf { system with processes := processes } key = system.slotsOf key :=
  rfl

/-- An index into a list with one more place behind it wraps at that place. -/
private theorem index_step {Item : Type} (items : List Item) (count : Nat) :
    (if (items[count % (items.length + 1)]?).isSome then count % (items.length + 1) + 1 else 0) =
      (count + 1) % (items.length + 1) := by
  have inside := Nat.mod_lt count (Nat.succ_pos items.length)
  rw [← Nat.mod_add_mod]
  generalize count % (items.length + 1) = index at inside
  by_cases behind : index = items.length
  · simp [behind]
  · have before : index < items.length := by omega
    rw [if_pos (by simp [before]), Nat.mod_eq_of_lt (by omega)]

/-- A served read moves on in the cache, or leaves it empty. -/
theorem CacheState.read_cached
    (state : CacheState system client history)
    (stored : Stored history key)
    (short : key.bytes.length ≤ 15)
    (hits : Hits system client key)
    (result : Option (List UInt8)) :
    CacheState (readCached system client).2 client (history ++ [.read key result]) := by
  obtain ⟨filled, content⟩ := state.of_hits short hits
  rw [readCached_eq]
  refine .keyed key ⟨short, by simpa using filled.own, filled.shared, ?_, ?_⟩ ?_
  · simpa using filled.place
  · intro other
    rw [recent_read_stored stored]
    exact eq_comm
  rcases content with serves | emptied
  · refine Or.inl ⟨?_, ?_, ?_⟩
    · rw [spoiled_read_stored stored]
      exact fun both => serves.unspoiled both.2
    · simpa only [Function.update_self, slotsOf_withProcesses] using serves.data
    · have inside : repeats history key % ((system.slotsOf key).length + 1) ≤
          (system.slotsOf key).length :=
        Nat.le_of_lt_succ (Nat.mod_lt _ (Nat.succ_pos _))
      simp only [Function.update_self, slotsOf_withProcesses, serves.index,
        serves.data _ inside, repeats_read_same]
      exact index_step _ _
  · refine Or.inr ⟨?_, by simpa using emptied.data, ?_⟩
    · rw [spoiled_read_stored stored]
      exact ⟨rfl, emptied.spoiled⟩
    · simp [emptied.index, emptied.data]

/-- A scan for a stored key fills the cache for it. -/
theorem CacheState.read_stored
    (state : CacheState system client history)
    (stored : Stored history key)
    (found : system.slotsOf key ≠ [])
    (short : key.bytes.length ≤ 15)
    (misses : ¬ Hits system client key)
    (result : Option (List UInt8)) :
    CacheState (readScanned system client key).2 client (history ++ [.read key result]) := by
  have unread := state.not_recent misses
  have first : repeats history key = 0 := by
    by_contra positive
    exact unread (recent_of_repeats stored positive)
  have positive : 0 < (system.slotsOf key).length := List.length_pos_iff.mpr found
  have sameSlots : System.slotsOf (readScanned system client key).2 key = system.slotsOf key := by
    have sameKeys :
        ((readScanned system client key).2.buckets (hash key bucketCount)).keys =
          (system.buckets (hash key bucketCount)).keys := by
      simp [readScanned_eq]
    rw [System.slotsOf, System.slotsOf, matchingSlots_congr sameKeys]
  obtain ⟨slot, last⟩ : ∃ slot, (system.slotsOf key).getLast? = some slot :=
    ⟨_, List.getLast?_eq_some_getLast found⟩
  have member := List.mem_of_getLast? last
  obtain ⟨place, placeMember, rfl⟩ := List.mem_map.mp member
  refine .keyed key ⟨short, ?_, ?_, ?_, ?_⟩ (Or.inl ⟨?_, ?_, ?_⟩)
  · simp [readScanned_eq, Cache.filled]
  · simp [readScanned_eq]
  · refine ⟨⟨hash key bucketCount, place⟩, ?_, ?_⟩
    · simp [readScanned_eq, Cache.filled, last]
    · have held := (matches_of_mem placeMember).1
      rw [Matches] at held ⊢
      simpa [readScanned_eq] using held
  · intro other
    rw [recent_read_stored stored]
    exact eq_comm
  · rw [spoiled_read_stored stored]
    exact fun both => unread both.2.recent
  · intro index inside
    rw [sameSlots] at inside ⊢
    simp [readScanned_eq, Cache.filled, inside]
  · rw [sameSlots, repeats_read_same, first, Nat.mod_eq_of_lt (by omega)]
    simp [readScanned_eq, Cache.filled, positive]

/-- A scan for an absent key empties the cache and keeps the key it was filled for. -/
theorem CacheState.read_absent
    (state : CacheState system client history)
    (absent : ¬ Stored history key)
    (nothing : system.slotsOf key = [])
    (result : Option (List UInt8)) :
    CacheState (readScanned system client key).2 client (history ++ [.read key result]) := by
  have cache : ((readScanned system client key).2.processes client).cache =
      (system.processes client).cache.filled [] := by
    simp [readScanned_eq, nothing]
  cases state with
  | keyless noKey unread =>
      refine .keyless ?_ ?_
      · rw [cache]
        simpa [Cache.filled] using noKey
      · intro other
        rw [recent_read_absent absent]
        exact unread other
  | keyed other filled _ =>
      obtain ⟨slot, place, held⟩ := filled.place
      refine .keyed other ⟨filled.short, ?_, ?_, ⟨slot, ?_, ?_⟩, ?_⟩ (Or.inr ⟨?_, ?_, ?_⟩)
      · rw [cache]
        rfl
      · rw [readScanned_eq]
        by_cases same : hash other bucketCount = hash key bucketCount
        · simp [same]
        · simpa [Function.update_of_ne same] using filled.shared
      · rw [cache]
        simpa [Cache.filled] using place
      · rw [readScanned_eq, Matches]
        rw [Matches] at held
        by_cases same : slot.bucket = hash key bucketCount
        · simpa [same] using held
        · simpa [Function.update_of_ne same] using held
      · intro another
        rw [recent_read_absent absent]
        exact filled.recent another
      · rw [spoiled_read_absent absent]
        exact (filled.recent other).mpr rfl
      · rw [cache]
        rfl
      · rw [cache]
        rfl

/-- Every call keeps track of the history. -/
theorem Tracks.step
    {call : Call}
    (tracks : Tracks client history system)
    (step : CallStep client system call after) :
    Tracks client (history ++ [call]) after := by
  cases call with
  | write write =>
      obtain ⟨rfl, step⟩ := step
      have kept : HoldsHistory (writesOf (history ++ [.write write])) after := by
        intro bucket
        rw [writesOf_write, bucketWrites, List.filter_append]
        exact step_holdsWrites (tracks.held bucket) step
      refine ⟨?_, kept, ?_, .keyless ?_ ?_⟩
      · rw [step.after_eq]
        simpa using tracks.attached
      · intro other member
        rw [writesOf_write] at member
        rcases List.mem_append.mp member with member | member
        · exact tracks.short other member
        · rw [List.mem_singleton.mp member]
          exact step.2.1
      · rw [step.after_eq]
        simp [resetCache]
      · intro key
        exact not_recent_write
  | read key result =>
      obtain ⟨nonempty, short, returned⟩ := step
      have stored := tracks.stored_iff nonempty short
      have attached : (after.processes client).attached = true := by
        rcases kvStoreRead_cases tracks.attached returned with ⟨_, cached⟩ | ⟨_, _, scanned⟩
        · rw [readCached_eq, Prod.mk.injEq] at cached
          rw [← cached.2]
          simpa using tracks.attached
        · rw [readScanned_eq, Prod.mk.injEq] at scanned
          rw [← scanned.2]
          simpa using tracks.attached
      refine ⟨attached, ?_, ?_, ?_⟩
      · rw [writesOf_read]
        exact tracks.held.read returned
      · rw [writesOf_read]
        exact tracks.short
      rcases kvStoreRead_cases tracks.attached returned with ⟨hits, cached⟩ | ⟨misses, _, scanned⟩
      · obtain rfl : (readCached system client).2 = after := by rw [cached]
        refine tracks.cache.read_cached ?_ short hits result
        obtain ⟨filled, _⟩ := tracks.cache.of_hits short hits
        obtain ⟨_, since⟩ := (filled.recent key).mpr rfl
        exact since.1
      · obtain rfl : (readScanned system client key).2 = after := by rw [scanned]
        by_cases present : Stored history key
        · exact tracks.cache.read_stored present (stored.mp present) short misses result
        · exact tracks.cache.read_absent present (not_not.mp (mt stored.mpr present)) result

end Reading

/-! ## Whole histories -/

/-- A process that has just attached to a store it created. -/
def attachedProcess : Process where
  attached := true
  cache :=
    { cacheValid := false
      cacheIdx := 0
      cacheData := fun _ => none
      cacheKey := none }

theorem tracks_initial
    {client : Nat}
    {start : System}
    (fresh : ∀ bucket, start.buckets bucket = emptyBucket)
    (attached : start.processes client = attachedProcess) :
    Tracks client [] start := by
  refine ⟨by simp [attached, attachedProcess], ?_, by simp [writesOf], .keyless ?_ ?_⟩
  · intro bucket
    rw [fresh bucket]
    exact emptyBucket_holdsWrites
  · simp [attached, attachedProcess]
  · rintro key ⟨newer, _, ⟨older, shape⟩, _⟩
    simp [readsSinceWrite] at shape

theorem tracks_run
    {client : Nat}
    {start final : System}
    {history : List Call}
    (fresh : ∀ bucket, start.buckets bucket = emptyBucket)
    (attached : start.processes client = attachedProcess)
    (run : Run (CallStep client) start history final) :
    Tracks client history final :=
  run.history (tracks_initial fresh attached) fun tracks step => tracks.step step

/-- Once a stored key was read, no read faults until the next write. -/
theorem Tracks.read_returns
    {client : Nat}
    {history : List Call}
    {system : System}
    {key recentKey : CString}
    (tracks : Tracks client history system)
    (recent : Recent history recentKey)
    (nonempty : 1 ≤ key.bytes.length)
    (short : key.bytes.length ≤ 15) :
    ∃ result after, CallStep client system (.read key result) after := by
  cases returned : kvStoreRead system client (some key) with
  | none =>
      obtain ⟨_, _, noKey⟩ := (kvStoreRead_eq_none_iff tracks.attached).mp returned
      cases tracks.cache with
      | keyless _ unread => exact absurd recent (unread recentKey)
      | keyed other filled _ =>
          obtain ⟨slot, place, _⟩ := filled.place
          rw [noKey] at place
          simp at place
  | some pair => exact ⟨pair.1, pair.2, nonempty, short, returned⟩

/-- Every call has one result. -/
theorem callStep_functional
    {client : Nat}
    {before first second : System}
    {call : Call}
    (toFirst : CallStep client before call first)
    (toSecond : CallStep client before call second) :
    first = second := by
  cases call with
  | write write =>
      have same := toFirst.2.2.2.symm.trans toSecond.2.2.2
      exact (Prod.mk.inj same).2
  | read key result =>
      have same := toFirst.2.2.symm.trans toSecond.2.2
      exact (Prod.mk.inj (Option.some.inj same)).2

/-- The first spoiled read of a history comes right after another key was read. -/
theorem Spoiled.repeats_eq_zero
    {history : List Call}
    {key : CString}
    (spoiled : Spoiled history key)
    (unspoiled :
      ∀ earlier other result later,
        history = earlier ++ .read other result :: later → ¬ Spoiled earlier other) :
    repeats history key = 0 := by
  rcases history.eq_nil_or_concat with rfl | ⟨earlier, call, rfl⟩
  · rfl
  · rw [List.concat_eq_append] at *
    cases call with
    | write write => exact repeats_write
    | read other result =>
        by_cases same : other = key
        · subst same
          have stored : Stored earlier other := by
            obtain ⟨_, ⟨stored, _⟩, _⟩ := spoiled
            exact stored_read.mp stored
          have before := ((spoiled_read_stored stored).mp spoiled).2
          exact absurd before (unspoiled earlier other result [] rfl)
        · exact repeats_read_other same

/--
In every history of one client whose reads all return, every read returns the next of
the values `kv_store_read_all` would return at that point, in the order of consecutive
reads and with one `NULL` after each round, exactly when no read is of a spoiled key.
-/
theorem reads_cycle_iff_unspoiled
    (client : Nat)
    (start final : System)
    (history : List Call)
    (fresh : ∀ bucket, start.buckets bucket = emptyBucket)
    (attached : start.processes client = attachedProcess)
    (run : Run (CallStep client) start history final) :
    (∀ earlier key result later before,
        history = earlier ++ .read key result :: later →
        Run (CallStep client) start earlier before →
        result =
          cycle ((kvStoreReadAll before client (some key)).getD []) (repeats earlier key)) ↔
      ∀ earlier key result later,
        history = earlier ++ .read key result :: later →
        ¬ Spoiled earlier key := by
  have allStored : ∀ {earlier before key},
      Run (CallStep client) start earlier before →
      (kvStoreReadAll before client (some key)).getD [] =
        storedValues (before.buckets (hash key bucketCount)) key := by
    intro earlier before key leading
    have tracks := tracks_run fresh attached leading
    rw [kvStoreReadAll_eq tracks.attached]
    generalize storedValues (before.buckets (hash key bucketCount)) key = values
    by_cases empty : values = []
    · rw [if_pos empty, empty]
      rfl
    · rw [if_neg empty]
      rfl
  constructor
  · intro right earlier
    induction length : earlier.length using Nat.strong_induction_on generalizing earlier with
    | _ count inductionHypothesis =>
        intro key result later shape spoiled
        obtain ⟨before, after, leading, nonempty, short, returned⟩ := run.at_label shape
        have tracks := tracks_run fresh attached leading
        have isNull := (tracks.read_result nonempty short returned).2 spoiled
        -- No earlier read was spoiled, so this one is the first after another key's.
        have first : repeats earlier key = 0 := by
          apply spoiled.repeats_eq_zero
          rintro front other otherResult back rfl
          subst length
          refine inductionHypothesis front.length (by simp) front rfl other otherResult
            (back ++ .read key result :: later) ?_
          simp [shape]
        have expected := right earlier key result later before shape leading
        rw [allStored leading, first, cycle, Nat.zero_mod, isNull] at expected
        obtain ⟨_, ⟨stored, _⟩, _⟩ := spoiled
        rw [Stored, ← tracks.storedValues_eq nonempty short] at stored
        have positive := List.length_pos_iff.mpr stored
        simp [List.getElem?_eq_getElem positive] at expected
  · intro unspoiled earlier key result later before shape leading
    obtain ⟨again, after, leadingAgain, nonempty, short, returned⟩ := run.at_label shape
    obtain rfl := leading.unique leadingAgain callStep_functional
    have tracks := tracks_run fresh attached leading
    rw [allStored leading]
    exact (tracks.read_result nonempty short returned).1
      (unspoiled earlier key result later shape)

/-- The key `"a"`, which the sample history does not write. -/
def absentKey : CString :=
  ⟨[97], by decide⟩

/-- The client's own write of `"v"` to `"k"`. -/
def ownWrite : Write :=
  { sampleWrite with process := 0 }

/-- The store after that write. -/
def ownSystem : System :=
  (kvStoreWrite freshSystem 0 (some ownWrite.key) (some ownWrite.value) ownWrite.stack).2

theorem ownSystem_run : Run (CallStep 0) freshSystem [.write ownWrite] ownSystem :=
  Run.extend .stop ⟨rfl, by decide, by decide, rfl⟩

/-- The first read after a write scans. -/
theorem ownSystem_read :
    ∃ result after, CallStep 0 ownSystem (.read ownWrite.key result) after := by
  have invalid : ¬ Faults ownSystem 0 ownWrite.key := by
    rintro ⟨_, own, _⟩
    exact absurd own (by decide)
  cases returned : kvStoreRead ownSystem 0 (some ownWrite.key) with
  | none => exact absurd ((kvStoreRead_eq_none_iff rfl).mp returned) invalid
  | some pair => exact ⟨pair.1, pair.2, by decide, by decide, returned⟩

/-- The first read of the sample history returns the value written. -/
theorem reads_cycle_ownSystem :
    ∃ final, Run (CallStep 0) freshSystem
      [.write ownWrite, .read ownWrite.key (some [118])] final := by
  obtain ⟨result, final, read⟩ := ownSystem_read
  have run := ownSystem_run.extend read
  have unspoiled : ∀ earlier key other later,
      [.write ownWrite] ++ [.read ownWrite.key result] =
        earlier ++ Call.read key other :: later →
      ¬ Spoiled earlier key := by
    intro earlier key other later shape spoiled
    have before : earlier = [] ∨ earlier = [] ++ [.write ownWrite] := by
      rcases earlier with _ | ⟨first, _ | ⟨second, rest⟩⟩ <;> simp_all
    rcases before with rfl | rfl
    · simp at shape
    · exact not_recent_write spoiled.recent
  have right :=
    (reads_cycle_iff_unspoiled 0 freshSystem final _ (fun _ => rfl) rfl run).mpr unspoiled
      [.write ownWrite] ownWrite.key result [] ownSystem rfl ownSystem_run
  have tracks := tracks_run (fun _ => rfl) rfl ownSystem_run
  rw [kvStoreReadAll_eq tracks.attached, tracks.storedValues_eq read.1 read.2.1] at right
  obtain rfl : result = some [118] := right.trans (by decide)
  exact ⟨final, run⟩

/--
A client writes `"v"` to `"k"`, reads `"k"`, reads the absent `"a"` and reads `"k"` again:
the last read returns `NULL` although it is the first after another key's and the value
is still stored.
-/
theorem absent_key_hides_value :
    ∃ first second before final,
      Run (CallStep 0) freshSystem
          [.write ownWrite, .read ownWrite.key first, .read absentKey second] before ∧
        CallStep 0 before (.read ownWrite.key none) final ∧
        kvStoreReadAll before 0 (some ownWrite.key) = some [[118]] ∧
        repeats [.write ownWrite, .read ownWrite.key first, .read absentKey second]
          ownWrite.key = 0 := by
  have stored : Stored [.write ownWrite] ownWrite.key := by
    rw [Stored]
    decide
  have absent : ¬ Stored [.write ownWrite] absentKey := by
    rw [Stored]
    decide
  obtain ⟨first, after, read⟩ := ownSystem_read
  have firstRun := ownSystem_run.extend read
  have firstTracks := tracks_run (fun _ => rfl) rfl firstRun
  have recent : Recent ([.write ownWrite] ++ [.read ownWrite.key first]) ownWrite.key :=
    (recent_read_stored stored).mpr rfl
  obtain ⟨second, before, missed⟩ :=
    firstTracks.read_returns recent (show 1 ≤ absentKey.bytes.length by decide) (by decide)
  have secondRun := firstRun.extend missed
  have secondTracks := tracks_run (fun _ => rfl) rfl secondRun
  have stillAbsent : ¬ Stored ([.write ownWrite] ++ [.read ownWrite.key first]) absentKey :=
    mt stored_read.mp absent
  have spoiled := (@spoiled_read_absent _ ownWrite.key _ second stillAbsent).mpr recent
  obtain ⟨third, final, last⟩ :=
    secondTracks.read_returns spoiled.recent (show 1 ≤ ownWrite.key.bytes.length by decide)
      (by decide)
  obtain rfl := (secondTracks.read_result last.1 last.2.1 last.2.2).2 spoiled
  refine ⟨first, second, before, final, secondRun, last, ?_, rfl⟩
  rw [kvStoreReadAll_eq secondTracks.attached,
    secondTracks.storedValues_eq last.1 last.2.1, writesOf_read, writesOf_read]
  decide

end Sysprog.Kv
