import Mathlib.Tactic.Ring
import Sysprog.CStrings
import Sysprog.CountedLoop
import Sysprog.Execution

namespace Sysprog.Kv

open CStrings CountedLoop

/-!
# The shared-memory key-value store of `key-value/kv.c`

The store is a table of buckets in shared memory; a bucket has a fixed number of
key slots and value slots, newest first.  Every client process has its own cache
globals.  Each function holds its bucket's semaphore from the first access to the
last, so a call is one step.

The semaphores, the store's name and its client count play no part in reading and
writing and are left out.
-/

/-- `BUCKET_COUNT`. -/
def bucketCount : Nat := 256

/-- `BUCKET_SIZE`, the slots of one bucket. -/
def bucketSize : Nat := 512

/-- `KEY_COUNT`, the bytes of a key slot. -/
def keyCount : Nat := 16

/-- `KEY_SIZE`, the bytes of a value slot. -/
def keySize : Nat := 32

/-- `bucket_t`: the two slot arrays and the shared cache flag. -/
structure Bucket where
  keys : Nat → List UInt8
  values : Nat → List UInt8
  cacheValid : Bool

/-- A pointer to a slot of the store. -/
structure SlotRef where
  bucket : Nat
  slot : Nat
  deriving Repr, DecidableEq

/-- The file-scope cache variables of one process. -/
structure Cache where
  cacheValid : Bool
  cacheIdx : Nat
  cacheData : Nat → Option SlotRef
  cacheKey : Option SlotRef

/-- One client process: whether `store` is set, and its cache. -/
structure Process where
  attached : Bool
  cache : Cache

/-- The store in shared memory and the processes that may call it. -/
structure System where
  buckets : Nat → Bucket
  processes : Nat → Process

/-- A `char` of the platform is signed. -/
def charValue (byte : UInt8) : Int :=
  if byte.toNat < 128 then byte.toNat else byte.toNat - 256

/-- One round of the loop in `hash`. -/
def hashStep (val : Int) (byte : UInt8) : Int :=
  let reduced := val.tmod (2 ^ 24)
  reduced * 32 + reduced + charValue byte

/-- `hash`: the index of a key's bucket below `max`. -/
def hash (word : CString) (max : Nat) : Nat :=
  let val := word.bytes.foldl hashStep 5381
  if val.tmod max < 0 then ((-val).tmod max).toNat else (val.tmod max).toNat

/-- A cache as `kv_store_write` leaves it. -/
def resetCache (cache : Cache) : Cache where
  cacheIdx := 0
  cacheKey := none
  cacheValid := false
  cacheData := fill (bucketSize + 1) cache.cacheData id fun _ => none

/--
The part of `kv_store_write` that moves the slots of one array: every slot is copied
to a temporary array, all but the last are copied back one place further, and the
new string goes to slot 0 with its last byte forced to NUL.
-/
def shiftSlots
    (width : Nat)
    (slots uninitialized : Nat → List UInt8)
    (newest : CString) : Nat → List UInt8 :=
  let temporary :=
    fill bucketSize uninitialized id fun k => strncpy width (slots k)
  let shifted :=
    fill (bucketSize - 1) slots (· + 1) fun k => strncpy width (temporary k)
  Function.update shifted 0 ((strncpy width newest.bytes).set (width - 1) 0)

/-- What the temporary arrays of `kv_store_write` hold before they are written. -/
structure StackContents where
  keys : Nat → List UInt8
  values : Nat → List UInt8

/-- `kv_store_write` by one process; a null pointer is `none`. -/
def kvStoreWrite
    (system : System)
    (process : Nat)
    (key value : Option CString)
    (stack : StackContents) : Int × System :=
  match key, value with
  | some key, some value =>
      if (system.processes process).attached = false ∨ key.bytes.length < 1 then
        (-1, system)
      else
        let i := hash key bucketCount
        let p := system.buckets i
        let written : Bucket :=
          { keys := shiftSlots keyCount p.keys stack.keys key
            values := shiftSlots keySize p.values stack.values value
            cacheValid := false }
        let caller := system.processes process
        (0,
          { buckets := Function.update system.buckets i written
            processes :=
              Function.update system.processes process
                { caller with cache := resetCache caller.cache } })
  | _, _ => (-1, system)

/-- `kv_store_read_all` by one process: the array of copies, or `NULL`. -/
def kvStoreReadAll
    (system : System)
    (process : Nat)
    (key : Option CString) : Option (List (List UInt8)) :=
  match key with
  | some key =>
      if (system.processes process).attached = false then
        none
      else
        let p := system.buckets (hash key bucketCount)
        let values :=
          forLoop bucketSize [] fun i collected =>
            if strncmp keyCount (p.keys (bucketSize - i - 1)) key.bytes = 0 then
              collected ++ [strndup keySize (p.values (bucketSize - i - 1))]
            else
              collected
        if values = [] then none else some values
  | none => none

/-- The locals of `kv_store_read` that its loop changes; `l` counts the cached slots. -/
structure Scan where
  cacheKey : Option SlotRef
  cacheData : Nat → Option SlotRef
  l : Nat

/-- One round of the loop of `kv_store_read`. -/
def scanSlot (p : Bucket) (k : Nat) (key : CString) (i : Nat) (scan : Scan) : Scan :=
  let slot : SlotRef := { bucket := k, slot := bucketSize - i - 1 }
  if strncmp keyCount (p.keys slot.slot) key.bytes = 0 then
    { cacheKey := some slot
      cacheData := Function.update scan.cacheData scan.l (some slot)
      l := scan.l + 1 }
  else
    scan

/-- The loop of `kv_store_read`, from the oldest slot to the newest. -/
def scanBucket (p : Bucket) (k : Nat) (key : CString) (cache : Cache) : Scan :=
  forLoop bucketSize
    { cacheKey := cache.cacheKey, cacheData := cache.cacheData, l := 0 }
    (scanSlot p k key)

/-- The bytes a pointer to a value slot of the store holds. -/
def System.valueAt (system : System) (slot : SlotRef) : List UInt8 :=
  (system.buckets slot.bucket).values slot.slot

/-- `kv_store_read` when the cache is of use: the next cached value, or `NULL` and a rewind. -/
def readCached (system : System) (process : Nat) : Option (List UInt8) × System :=
  let caller := system.processes process
  let cache := caller.cache
  let withIdx (idx : Nat) : System :=
    { system with
      processes :=
        Function.update system.processes process
          { caller with cache := { cache with cacheIdx := idx } } }
  match cache.cacheData cache.cacheIdx with
  | none => (none, withIdx 0)
  | some slot =>
      (some (strndup keySize (system.valueAt slot)), withIdx (cache.cacheIdx + 1))

/-- `kv_store_read` when it has to fill the cache, which it does even for an absent key. -/
def readScanned (system : System) (process : Nat) (key : CString) :
    Option (List UInt8) × System :=
  let caller := system.processes process
  let k := hash key bucketCount
  let p := system.buckets k
  let scan := scanBucket p k key caller.cache
  let cacheData := Function.update scan.cacheData scan.l none
  let r :=
    if scan.l > 0 then
      (cacheData 0).map fun slot => strndup keySize (system.valueAt slot)
    else
      none
  let cache : Cache :=
    { cacheValid := true
      cacheIdx := if scan.l > 0 then 1 else 0
      cacheData := cacheData
      cacheKey := scan.cacheKey }
  (r,
    { buckets := Function.update system.buckets k { p with cacheValid := true }
      processes := Function.update system.processes process { caller with cache := cache } })

/--
`kv_store_read` by one process; `none` stands for the fault of comparing with a null
`cache_key`, which happens only once both flags are set.
-/
def kvStoreRead
    (system : System)
    (process : Nat)
    (key : Option CString) : Option (Option (List UInt8) × System) :=
  match key with
  | some key =>
      if (system.processes process).attached = false then
        some (none, system)
      else
        let cache := (system.processes process).cache
        if (system.buckets (hash key bucketCount)).cacheValid ∧ cache.cacheValid then
          match cache.cacheKey with
          | none => none
          | some slot =>
              if strncmp keyCount ((system.buckets slot.bucket).keys slot.slot) key.bytes = 0
              then
                some (readCached system process)
              else
                some (readScanned system process key)
        else
          some (readScanned system process key)
  | none => some (none, system)

/-- The buckets `kv_store_create` lays out: all slots NUL, no cache valid. -/
def emptyBucket : Bucket where
  keys := fun _ => List.replicate keyCount 0
  values := fun _ => List.replicate keySize 0
  cacheValid := false

end Sysprog.Kv
