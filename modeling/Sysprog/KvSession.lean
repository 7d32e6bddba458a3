import Sysprog.KvReads

namespace Sysprog.Kv

open CStrings Execution

/-!
# One client creates, uses and destroys stores

The shared memory of the machine is a table of named objects, which may hold stores of
earlier clients.  The client is attached to at most one of them.  Both validity flags
are set by a read of an absent key that leaves `cache_key` null; the next read of the
bucket then compares with it.
-/

/-- A shared memory object; `ready` tells whether its semaphores are initialised. -/
structure Object where
  buckets : Nat → Bucket
  name : List UInt8
  clients : Int
  ready : Bool

/-- The client: the named objects, the one `store` points to, and the cache. -/
structure Session where
  objects : CString → Option Object
  store : Option CString
  cache : Cache

/-- The cache variables as `kv_store_create` and `kv_store_destroy` leave them. -/
def clearedCache : Cache where
  cacheValid := false
  cacheIdx := 0
  cacheData := fun _ => none
  cacheKey := none

namespace Session

/-- The object the client is attached to. -/
def object (session : Session) : Option Object :=
  session.store.bind session.objects

/-- What the calls see: the buckets of the store, and the client as process 0. -/
def system (session : Session) : System where
  buckets := (session.object.map Object.buckets).getD fun _ => emptyBucket
  processes := fun _ => { attached := session.store.isSome, cache := session.cache }

/-- What the calls leave: the buckets go back to the store, the cache to the client. -/
def withSystem (session : Session) (result : System) : Session :=
  match session.store, session.object with
  | some name, some object =>
      { session with
        objects :=
          Function.update session.objects name (some { object with buckets := result.buckets })
        cache := (result.processes 0).cache }
  | _, _ => session

end Session

/-- What the operating system answers to the calls of `kv_store_create`. -/
structure Answers where
  probed : Bool
  opened : Bool
  truncated : Bool
  mapped : Bool

/-- `NAME_MAX`, the bytes of the field `name`. -/
def nameMax : Nat := 255

/-- A store as `kv_store_create` lays it out, with one client. -/
def createdObject (name : CString) : Object where
  buckets := fun _ => emptyBucket
  name := (strncpy nameMax name.bytes).set (nameMax - 1) 0
  clients := 1
  ready := true

/-- An object that was created and not laid out. -/
def blankObject : Object where
  buckets := fun _ => emptyBucket
  name := List.replicate nameMax 0
  clients := 0
  ready := false

/--
`kv_store_create`; `none` when it never returns, which is when it attaches to an object
whose semaphores are not initialised.
-/
def kvStoreCreate (session : Session) (name : Option CString) (answers : Answers) :
    Option (Int × Session) :=
  if session.store.isSome then
    some (0, session)
  else
    match name with
    | none => some (-1, session)
    | some name =>
        let clear := (session.objects name).isNone ∨ answers.probed = false
        -- An object exists from here on, if only a blank one.
        let opened : Session :=
          if clear then
            { session with
              objects :=
                Function.update session.objects name
                  (some ((session.objects name).getD blankObject)) }
          else
            session
        if answers.opened = false then
          some (-1, session)
        else if clear ∧ answers.truncated = false then
          some (-1, opened)
        else if answers.mapped = false then
          some (-1, opened)
        else if clear then
          some
            (0,
              { objects := Function.update session.objects name (some (createdObject name))
                store := some name
                cache := clearedCache })
        else
          match session.objects name with
          | none => none
          | some object =>
              if object.ready then
                some
                  (0,
                    { session with
                      objects :=
                        Function.update session.objects name
                          (some { object with clients := object.clients + 1 })
                      store := some name })
              else
                none

/-- What the operating system answers to the calls of `kv_store_destroy`. -/
structure Releases where
  unmapped : Bool
  unlinked : Bool

/-- `kv_store_destroy`. -/
def kvStoreDestroy (session : Session) (name : Option CString) (releases : Releases) :
    Int × Session :=
  match session.store, session.object, name with
  | some store, some object, some name =>
      let session := { session with cache := clearedCache }
      if strncmp (nameMax - 1) object.name name.bytes ≠ 0 then
        (-1, session)
      else
        let cl := object.clients - 1
        let left : Object :=
          { object with clients := cl, ready := if cl < 1 then false else object.ready }
        let session :=
          { session with objects := Function.update session.objects store (some left) }
        if releases.unmapped = false then
          (-1, session)
        else
          let session := { session with store := none }
          if cl < 1 then
            if (session.objects name).isNone ∨ releases.unlinked = false then
              (-1, session)
            else
              (0, { session with objects := Function.update session.objects name none })
          else
            (0, session)
  | _, _, _ => (-1, session)

/-! ## Sequences of calls -/

/-- A call of the client, with what the operating system answers. -/
inductive SessionCall where
  | create (name : Option CString) (answers : Answers)
  | write (key value : Option CString) (stack : StackContents)
  | read (key : Option CString)
  | readAll (key : Option CString)
  | destroy (name : Option CString) (releases : Releases)

/-- What a call leaves behind; `none` when it faults or never returns. -/
def Session.perform (session : Session) : SessionCall → Option Session
  | .create name answers => (kvStoreCreate session name answers).map Prod.snd
  | .write key value stack =>
      some (session.withSystem (kvStoreWrite session.system 0 key value stack).2)
  | .read key =>
      (kvStoreRead session.system 0 key).map fun returned => session.withSystem returned.2
  | .readAll _ => some session
  | .destroy name releases => some (kvStoreDestroy session name releases).2

/--
The client with the keys it has read since its cache was last cleared, which are no part
of the program.
-/
@[ext] structure Watched where
  session : Session
  reads : List CString

/-- The keys read since the cache was last cleared, after one more call. -/
def Watched.readsAfter (watched : Watched) : SessionCall → List CString
  | .create _ _ => watched.reads
  | .write key value stack =>
      if (kvStoreWrite watched.session.system 0 key value stack).1 = 0 then []
      else watched.reads
  | .read none => watched.reads
  | .read (some key) =>
      if watched.session.store.isSome then key :: watched.reads else watched.reads
  | .readAll _ => watched.reads
  | .destroy none _ => watched.reads
  | .destroy (some _) _ => if watched.session.store.isSome then [] else watched.reads

/-- One call that returns. -/
def WatchedStep (before : Watched) (call : SessionCall) (after : Watched) : Prop :=
  before.session.perform call = some after.session ∧ after.reads = before.readsAfter call

/-- A client that has made no call, on a machine with these objects. -/
def Watched.initial (objects : CString → Option Object) : Watched where
  session := { objects := objects, store := none, cache := clearedCache }
  reads := []

/-- The store a client is attached to exists. -/
def Session.Mapped (session : Session) : Prop :=
  ∀ name, session.store = some name → (session.objects name).isSome

/--
The cache is valid once a key was read, and `cache_key` is null as long as no key read
was stored.
-/
structure Tracked (watched : Watched) : Prop where
  attached : watched.session.Mapped
  detached : watched.session.store = none → watched.reads = []
  valid : watched.session.cache.cacheValid = true ↔ watched.reads ≠ []
  key :
    watched.session.cache.cacheKey = none ↔
      ∀ key ∈ watched.reads, watched.session.system.slotsOf key = []

/-! ## What a call does to the cache -/

section Calls

variable {session after : Session} {watched : Watched}

theorem withSystem_of_detached
    (detached : session.store = none)
    (result : System) :
    session.withSystem result = session := by
  simp only [Session.withSystem, detached]

@[simp] theorem withSystem_store (result : System) :
    (session.withSystem result).store = session.store := by
  simp only [Session.withSystem]
  split <;> rfl

theorem withSystem_of_attached
    {name : CString}
    {object : Object}
    (attached : session.store = some name)
    (found : session.objects name = some object)
    (result : System) :
    session.withSystem result =
      { session with
        objects :=
          Function.update session.objects name (some { object with buckets := result.buckets })
        cache := (result.processes 0).cache } := by
  have here : session.object = some object := by
    simp only [Session.object, attached, Option.bind_some, found]
  simp only [Session.withSystem, attached, here]

theorem withSystem_buckets
    {name : CString}
    {object : Object}
    (attached : session.store = some name)
    (found : session.objects name = some object)
    (result : System) :
    (session.withSystem result).system.buckets = result.buckets := by
  rw [withSystem_of_attached attached found]
  simp [Session.system, Session.object, attached]

theorem withSystem_system : session.withSystem session.system = session := by
  cases attached : session.store with
  | none => exact withSystem_of_detached attached _
  | some name =>
      cases found : session.objects name with
      | none => simp only [Session.withSystem, Session.object, attached, Option.bind_some, found]
      | some object =>
          have same : Function.update session.objects name (some object) = session.objects := by
            rw [← found, Function.update_eq_self]
          rw [withSystem_of_attached attached found]
          simp only [Session.system, Session.object, attached, Option.bind_some, found,
            Option.map_some, Option.getD_some, same]
          rw [← attached]

/-- A write is refused and changes nothing, or clears the cache of the caller. -/
theorem kvStoreWrite_cases
    (system : System)
    (process : Nat)
    (key value : Option CString)
    (stack : StackContents) :
    kvStoreWrite system process key value stack = (-1, system) ∨
      ((kvStoreWrite system process key value stack).1 = 0 ∧
        (system.processes process).attached = true ∧
        ((kvStoreWrite system process key value stack).2.processes process).cache =
          resetCache (system.processes process).cache) := by
  unfold kvStoreWrite
  split
  · split
    · exact Or.inl rfl
    · rename_i accepted
      rw [not_or, Bool.not_eq_false] at accepted
      exact Or.inr ⟨rfl, accepted.1, by simp⟩
  · exact Or.inl rfl

/-- The slots of a key depend on the keys stored alone. -/
theorem slotsOf_congr
    {system other : System}
    (same : ∀ bucket, (other.buckets bucket).keys = (system.buckets bucket).keys)
    (key : CString) :
    other.slotsOf key = system.slotsOf key := by
  rw [System.slotsOf, System.slotsOf, matchingSlots_congr (same _)]

/-- `kv_store_create` changes nothing, or attaches a client without a store. -/
theorem kvStoreCreate_cases
    {code : Int}
    {name : Option CString}
    {answers : Answers}
    (returned : kvStoreCreate session name answers = some (code, after)) :
    after = session ∨
      (session.store = none ∧
        (after.cache = session.cache ∨ after.cache = clearedCache) ∧
        after.Mapped) := by
  unfold kvStoreCreate at returned
  split at returned
  · simp_all
  · rename_i unattached
    have detached : session.store = none := by simpa using unattached
    split at returned
    · simp_all
    · rename_i name
      dsimp only at returned
      -- The exits of the function, in the order of the source.
      split_ifs at returned with noOpen noTruncate noMap clear
      all_goals try
        simp only [Option.some.injEq, Prod.mk.injEq] at returned
        obtain ⟨_, rfl⟩ := returned
        simp [detached, Session.Mapped]
      split at returned
      · simp at returned
      · split at returned
        · simp only [Option.some.injEq, Prod.mk.injEq] at returned
          obtain ⟨_, rfl⟩ := returned
          simp [detached, Session.Mapped]
        · simp at returned

/-- An accepted `kv_store_destroy` clears the cache, whether or not it detaches. -/
theorem kvStoreDestroy_attached
    {store name : CString}
    {object : Object}
    {releases : Releases}
    (attached : session.store = some store)
    (found : session.objects store = some object) :
    (kvStoreDestroy session (some name) releases).2.cache = clearedCache ∧
      (kvStoreDestroy session (some name) releases).2.Mapped := by
  have here : session.object = some object := by
    simp only [Session.object, attached, Option.bind_some, found]
  simp only [kvStoreDestroy, attached, here]
  split_ifs <;> simp [Session.Mapped, found]

end Calls

/-! ## The run -/

theorem Tracked.of_cleared
    {watched : Watched}
    (mapped : watched.session.Mapped)
    (invalid : watched.session.cache.cacheValid = false)
    (noKey : watched.session.cache.cacheKey = none)
    (noReads : watched.reads = []) :
    Tracked watched where
  attached := mapped
  detached := fun _ => noReads
  valid := by simp [invalid, noReads]
  key := by simp [noKey, noReads]

namespace Tracked

variable {watched : Watched}

/-- The object a tracked client is attached to. -/
theorem found
    {name : CString}
    (tracked : Tracked watched)
    (attached : watched.session.store = some name) :
    ∃ object, watched.session.objects name = some object :=
  Option.isSome_iff_exists.mp (tracked.attached name attached)

theorem mapped_withSystem
    (tracked : Tracked watched)
    (result : System) :
    (watched.session.withSystem result).Mapped := by
  intro name attached
  rw [withSystem_store] at attached
  obtain ⟨object, found⟩ := tracked.found attached
  rw [withSystem_of_attached attached found]
  simp

/-- A client without a store has an invalid cache without a key. -/
theorem cleared_of_detached
    (tracked : Tracked watched)
    (detached : watched.session.store = none) :
    watched.session.cache.cacheValid = false ∧ watched.session.cache.cacheKey = none := by
  have noReads := tracked.detached detached
  constructor
  · have invalid := tracked.valid
    simpa [noReads] using invalid
  · rw [tracked.key, noReads]
    simp

theorem create
    {after : Watched}
    {name : Option CString}
    {answers : Answers}
    (tracked : Tracked watched)
    (step : WatchedStep watched (.create name answers) after) :
    Tracked after := by
  obtain ⟨performed, sameReads⟩ := step
  obtain ⟨⟨code, session⟩, returned, rfl⟩ := Option.map_eq_some_iff.mp performed
  rcases kvStoreCreate_cases returned with same | ⟨detached, sameCache, mapped⟩
  · obtain rfl : after = watched := Watched.ext same sameReads
    exact tracked
  · have noReads := sameReads.trans (tracked.detached detached)
    obtain ⟨invalid, noKey⟩ := tracked.cleared_of_detached detached
    rcases sameCache with same | same
    · exact .of_cleared mapped (by rw [same, invalid]) (by rw [same, noKey]) noReads
    · exact .of_cleared mapped (by rw [same]; rfl) (by rw [same]; rfl) noReads

/-- The cache after a read of a key in a store. -/
theorem read_attached
    {after : Watched}
    {name key : CString}
    {object : Object}
    {result : Option (List UInt8)}
    {system : System}
    (tracked : Tracked watched)
    (attached : watched.session.store = some name)
    (found : watched.session.objects name = some object)
    (returned : kvStoreRead watched.session.system 0 (some key) = some (result, system))
    (sessionEq : after.session = watched.session.withSystem system)
    (readsEq : after.reads = key :: watched.reads) :
    Tracked after := by
  have isAttached : (watched.session.system.processes 0).attached = true := by
    simp [Session.system, attached]
  have sameSlots : ∀ other,
      after.session.system.slotsOf other = watched.session.system.slotsOf other := by
    apply slotsOf_congr
    intro bucket
    rw [sessionEq, withSystem_buckets attached found]
    exact (kvStoreRead_slots returned bucket).1
  have cacheEq : after.session.cache = (system.processes 0).cache := by
    rw [sessionEq, withSystem_of_attached attached found]
  have stays : after.session.store = some name := by
    rw [sessionEq, withSystem_store, attached]
  have flagAndKey :
      (system.processes 0).cache.cacheValid = true ∧
        ((system.processes 0).cache.cacheKey = none ↔
          watched.session.system.slotsOf key = [] ∧ watched.session.cache.cacheKey = none) := by
    rcases kvStoreRead_cases isAttached returned with ⟨hits, cached⟩ | ⟨_, _, scanned⟩
    · obtain ⟨_, own, slot, place, _⟩ := hits
      rw [readCached_eq, Prod.mk.injEq] at cached
      rw [← cached.2]
      have some_key : watched.session.cache.cacheKey = some slot := place
      simp only [Function.update_self, own, place, some_key, reduceCtorEq, and_false, and_self]
    · rw [readScanned_eq, Prod.mk.injEq] at scanned
      rw [← scanned.2]
      simp [Cache.filled, Session.system]
  constructor
  · rw [sessionEq]
    exact tracked.mapped_withSystem _
  · intro detached
    simp [stays] at detached
  · rw [cacheEq, readsEq]
    simp [flagAndKey.1]
  · rw [cacheEq, flagAndKey.2, tracked.key, readsEq]
    simp [sameSlots]

theorem write
    {after : Watched}
    {key value : Option CString}
    {stack : StackContents}
    (tracked : Tracked watched)
    (step : WatchedStep watched (.write key value stack) after) :
    Tracked after := by
  obtain ⟨performed, readsEq⟩ := step
  have sessionEq := (Option.some.inj performed).symm
  have mapped : after.session.Mapped := by
    rw [sessionEq]
    exact tracked.mapped_withSystem _
  simp only [Watched.readsAfter] at readsEq
  rcases kvStoreWrite_cases watched.session.system 0 key value stack with
    refused | ⟨accepted, isAttached, cleared⟩
  · rw [refused, if_neg (by simp)] at readsEq
    rw [refused, withSystem_system] at sessionEq
    obtain rfl : after = watched := Watched.ext sessionEq readsEq
    exact tracked
  · rw [if_pos accepted] at readsEq
    obtain ⟨name, attached⟩ := Option.isSome_iff_exists.mp isAttached
    obtain ⟨object, found⟩ := tracked.found attached
    rw [withSystem_of_attached attached found] at sessionEq
    apply Tracked.of_cleared mapped _ _ readsEq
    · rw [sessionEq]
      exact congrArg Cache.cacheValid cleared
    · rw [sessionEq]
      exact congrArg Cache.cacheKey cleared

theorem destroy
    {after : Watched}
    {name : Option CString}
    {releases : Releases}
    (tracked : Tracked watched)
    (step : WatchedStep watched (.destroy name releases) after) :
    Tracked after := by
  obtain ⟨performed, readsEq⟩ := step
  have sessionEq := (Option.some.inj performed).symm
  cases name with
  | none =>
      have same : (kvStoreDestroy watched.session none releases).2 = watched.session := by
        unfold kvStoreDestroy
        split
        · simp_all
        · rfl
      obtain rfl : after = watched := Watched.ext (sessionEq.trans same) readsEq
      exact tracked
  | some name =>
      cases attached : watched.session.store with
      | none =>
          have same :
              (kvStoreDestroy watched.session (some name) releases).2 = watched.session := by
            simp only [kvStoreDestroy, attached]
          simp only [Watched.readsAfter, attached, Option.isSome_none, Bool.false_eq_true,
            ↓reduceIte] at readsEq
          obtain rfl : after = watched := Watched.ext (sessionEq.trans same) readsEq
          exact tracked
      | some store =>
          obtain ⟨object, found⟩ := tracked.found attached
          obtain ⟨cleared, mapped⟩ :=
            @kvStoreDestroy_attached _ store name object releases attached found
          rw [← sessionEq] at cleared mapped
          simp only [Watched.readsAfter, attached, Option.isSome_some, ↓reduceIte] at readsEq
          exact .of_cleared mapped (by rw [cleared]; rfl) (by rw [cleared]; rfl) readsEq

/-- A read that returns has set the flag, and the key if the key read is stored. -/
theorem read
    {after : Watched}
    {key : Option CString}
    (tracked : Tracked watched)
    (step : WatchedStep watched (.read key) after) :
    Tracked after := by
  obtain ⟨performed, readsEq⟩ := step
  obtain ⟨⟨result, system⟩, returned, sessionEq⟩ := Option.map_eq_some_iff.mp performed
  cases key with
  | none =>
      simp only [kvStoreRead, Option.some.injEq, Prod.mk.injEq] at returned
      rw [← returned.2, withSystem_system] at sessionEq
      obtain rfl : after = watched := Watched.ext sessionEq.symm readsEq
      exact tracked
  | some key =>
      cases attached : watched.session.store with
      | none =>
          rw [withSystem_of_detached attached] at sessionEq
          simp only [Watched.readsAfter, attached, Option.isSome_none, Bool.false_eq_true,
            ↓reduceIte] at readsEq
          obtain rfl : after = watched := Watched.ext sessionEq.symm readsEq
          exact tracked
      | some name =>
          obtain ⟨object, found⟩ := tracked.found attached
          simp only [Watched.readsAfter, attached, Option.isSome_some, ↓reduceIte] at readsEq
          exact tracked.read_attached attached found returned sessionEq.symm readsEq

end Tracked

/-- What every call that returns keeps. -/
theorem watchedStep_tracked
    {before after : Watched}
    {call : SessionCall}
    (tracked : Tracked before)
    (step : WatchedStep before call after) :
    Tracked after := by
  cases call with
  | create name answers => exact tracked.create step
  | write key value stack => exact tracked.write step
  | read key => exact tracked.read step
  | readAll key =>
      obtain rfl : after = before := Watched.ext (Option.some.inj step.1).symm step.2
      exact tracked
  | destroy name releases => exact tracked.destroy step

theorem watchedRun_tracked
    {objects : CString → Option Object}
    {calls : List SessionCall}
    {watched : Watched}
    (run : Run WatchedStep (Watched.initial objects) calls watched) :
    Tracked watched := by
  apply run.invariant _ watchedStep_tracked
  exact .of_cleared (by simp [Session.Mapped, Watched.initial]) rfl rfl rfl

/--
After every sequence of calls, a read of a key reaches its comparison with a key to
compare with, unless the bucket's flag is set and the keys read since the cache was
last cleared, of which there are some, are all absent.
-/
theorem compared_key_set_iff
    (objects : CString → Option Object)
    (calls : List SessionCall)
    (watched : Watched)
    (key : CString)
    (run : Run WatchedStep (Watched.initial objects) calls watched) :
    ((watched.session.system.buckets (hash key bucketCount)).cacheValid = true →
        watched.session.cache.cacheValid = true →
        watched.session.cache.cacheKey ≠ none) ↔
      ¬ ((watched.session.system.buckets (hash key bucketCount)).cacheValid = true ∧
        watched.reads ≠ [] ∧
        ∀ earlier ∈ watched.reads, watched.session.system.slotsOf earlier = []) := by
  have tracked := watchedRun_tracked run
  rw [← tracked.valid, ← tracked.key]
  tauto

/-! ## Sample run -/

/-- The name `"/S"`. -/
def storeName : CString :=
  ⟨[47, 83], by simp⟩

/-- The operating system grants everything. -/
def granted : Answers where
  probed := true
  opened := true
  truncated := true
  mapped := true

/-- A client that has created its store. -/
def createdWatched : Watched where
  session :=
    { objects := Function.update (fun _ => none) storeName (some (createdObject storeName))
      store := some storeName
      cache := clearedCache }
  reads := []

theorem createdWatched_run :
    Run WatchedStep (Watched.initial fun _ => none) [.create (some storeName) granted]
      createdWatched := by
  refine Run.extend .stop ⟨?_, rfl⟩
  simp [Session.perform, kvStoreCreate, Watched.initial, granted, createdWatched]

theorem compared_key_set_created :
    Run WatchedStep (Watched.initial fun _ => none) [.create (some storeName) granted]
        createdWatched ∧
      ((createdWatched.session.system.buckets (hash absentKey bucketCount)).cacheValid = true →
        createdWatched.session.cache.cacheValid = true →
        createdWatched.session.cache.cacheKey ≠ none) ∧
      createdWatched.reads = [] :=
  ⟨createdWatched_run,
    (compared_key_set_iff _ _ _ absentKey createdWatched_run).mpr fun failed => failed.2.1 rfl,
    rfl⟩

theorem createdWatched_slots : createdWatched.session.system.slotsOf absentKey = [] := by
  have isEmpty : createdWatched.session.system.buckets (hash absentKey bucketCount) =
      emptyBucket := by
    simp [Session.system, Session.object, createdWatched, createdObject]
  have different : strncmp keyCount (List.replicate keyCount 0) absentKey.bytes ≠ 0 := by
    decide
  have noSlots : matchingSlots emptyBucket absentKey = [] := by
    rw [List.eq_nil_iff_forall_not_mem]
    exact fun slot member => different (matches_of_mem member).1
  rw [System.slotsOf, isEmpty, noSlots, List.map_nil]

/--
A client creates a store and reads the absent key `"a"`: both flags are set and
`cache_key` is null, so that a second read of `"a"` compares with a null pointer.
-/
theorem absent_read_twice_faults :
    ∃ watched,
      Run WatchedStep (Watched.initial fun _ => none)
          [.create (some storeName) granted, .read (some absentKey)] watched ∧
        (watched.session.system.buckets (hash absentKey bucketCount)).cacheValid = true ∧
        watched.session.cache.cacheValid = true ∧
        watched.session.cache.cacheKey = none ∧
        watched.session.perform (.read (some absentKey)) = none := by
  let scanned := (readScanned createdWatched.session.system 0 absentKey).2
  let watched : Watched :=
    { session := createdWatched.session.withSystem scanned, reads := [absentKey] }
  have invalid : createdWatched.session.cache.cacheValid = false := rfl
  have attached : (createdWatched.session.system.processes 0).attached = true := rfl
  have misses : ¬ Hits createdWatched.session.system 0 absentKey :=
    fun hits => absurd (invalid.symm.trans hits.2.1) (by decide)
  have noFault : ¬ Faults createdWatched.session.system 0 absentKey :=
    fun faults => absurd (invalid.symm.trans faults.2.1) (by decide)
  have returned := kvStoreRead_of_misses attached misses noFault
  have read : WatchedStep createdWatched (.read (some absentKey)) watched := by
    refine ⟨?_, rfl⟩
    rw [Session.perform, returned]
    rfl
  have run := createdWatched_run.extend read
  have found : createdWatched.session.objects storeName = some (createdObject storeName) := by
    simp [createdWatched]
  have buckets : watched.session.system.buckets = scanned.buckets :=
    withSystem_buckets rfl found scanned
  have flag :
      (watched.session.system.buckets (hash absentKey bucketCount)).cacheValid = true := by
    rw [buckets]
    simp [scanned, readScanned_eq]
  have tracked := watchedRun_tracked run
  have valid := tracked.valid.mpr (List.cons_ne_nil _ _)
  have noKey : watched.session.cache.cacheKey = none := by
    have sameSlots := @slotsOf_congr createdWatched.session.system watched.session.system
    rw [tracked.key]
    intro key member
    obtain rfl : key = absentKey := by simpa [watched] using member
    rw [sameSlots _ absentKey, createdWatched_slots]
    intro bucket
    rw [buckets]
    exact (kvStoreRead_slots returned bucket).1
  refine ⟨watched, run, flag, valid, noKey, ?_⟩
  have stays : (watched.session.system.processes 0).attached = true := by
    simp [Session.system, watched, createdWatched]
  have faulted := (kvStoreRead_eq_none_iff stays).mpr ⟨flag, valid, noKey⟩
  rw [Session.perform, faulted, Option.map_none]

end Sysprog.Kv
