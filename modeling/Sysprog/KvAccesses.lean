import Sysprog.KvHistory
import Sysprog.LockedSections

namespace Sysprog.Kv

open CStrings CountedLoop LockedSections

/-!
# The sections of the store byte by byte

`kv_store_write` and `kv_store_read_all` hold the semaphore of one bucket and load and store
its arrays a byte at a time.  Run to its end, each does to the bucket what the function does
in one step.
-/

/-! ## The code of the functions -/

/-- `for` in a section: run `body 0`, ... , `body (rounds - 1)`. -/
def forCode {State : Type}
    (rounds : Nat)
    (start : State)
    (body : Nat → State → Code Bucket State) : Code Bucket State :=
  match rounds with
  | 0 => pure start
  | rounds + 1 => do
      let state ← forCode rounds start body
      body rounds state

/-- Load the string of an array from a byte on, up to its NUL or a limit. -/
def loadString (array : Bucket → List UInt8) (start : Nat) : Nat → Code Bucket (List UInt8)
  | 0 => pure []
  | limit + 1 => do
      let byte ← Code.load fun p => (array p).getD start 0
      if byte = 0 then
        pure []
      else
        let rest ← loadString array (start + 1) limit
        pure (byte :: rest)

/-- `strncmp` of an array of the bucket with a string of the caller. -/
def compareString (array : Bucket → List UInt8) (start : Nat) :
    Nat → List UInt8 → Code Bucket Int
  | 0, _ => pure 0
  | limit + 1, string => do
      let left ← Code.load fun p => (array p).getD start 0
      let right := string.headD 0
      if left = right then
        if left = 0 then pure 0 else compareString array (start + 1) limit string.tail
      else
        pure ((left.toNat : Int) - right.toNat)

/-- `p->keys[slot][place] = byte`. -/
def Bucket.setKey (slot place : Nat) (byte : UInt8) (p : Bucket) : Bucket :=
  { p with keys := Function.update p.keys slot ((p.keys slot).set place byte) }

/-- `p->values[slot][place] = byte`. -/
def Bucket.setValue (slot place : Nat) (byte : UInt8) (p : Bucket) : Bucket :=
  { p with values := Function.update p.values slot ((p.values slot).set place byte) }

/-- Store bytes one after the other, from a place on. -/
def storeBytes (store : Nat → UInt8 → Bucket → Bucket) (place : Nat) :
    List UInt8 → Code Bucket Unit
  | [] => pure ()
  | byte :: rest => do
      Code.store (store place byte)
      storeBytes store (place + 1) rest

/-- The first loop of `kv_store_write`: the slots are copied to the stack. -/
def copySlots (stack : StackContents) : Code Bucket StackContents :=
  forCode bucketSize stack fun k temporary => do
    let key ← loadString (fun p => p.keys k) 0 keyCount
    let value ← loadString (fun p => p.values k) 0 keySize
    pure
      { keys := Function.update temporary.keys k (strncpy keyCount key)
        values := Function.update temporary.values k (strncpy keySize value) }

/-- The second loop of `kv_store_write`: the copies come back one slot further. -/
def moveSlots (temporary : StackContents) (rounds : Nat) : Code Bucket Unit :=
  forCode rounds () fun k _ => do
    storeBytes (Bucket.setKey (k + 1)) 0 (strncpy keyCount (temporary.keys k))
    storeBytes (Bucket.setValue (k + 1)) 0 (strncpy keySize (temporary.values k))

/-- The section of `kv_store_write`. -/
def kvStoreWriteCode (key value : CString) (stack : StackContents) : Code Bucket Unit := do
  Code.store fun p => { p with cacheValid := false }
  let temporary ← copySlots stack
  moveSlots temporary (bucketSize - 1)
  storeBytes (Bucket.setKey 0) 0 (strncpy keyCount key.bytes)
  storeBytes (Bucket.setValue 0) 0 (strncpy keySize value.bytes)
  Code.store (Bucket.setKey 0 (keyCount - 1) 0)
  Code.store (Bucket.setValue 0 (keySize - 1) 0)

/-- The section of `kv_store_read_all`, with the copies in `values`. -/
def kvStoreReadAllCode (key : CString) : Code Bucket (List (List UInt8)) :=
  forCode bucketSize [] fun i values => do
    let order ← compareString (fun p => p.keys (bucketSize - i - 1)) 0 keyCount key.bytes
    if order = 0 then
      let copy ← loadString (fun p => p.values (bucketSize - i - 1)) 0 keySize
      pure (values ++ [copy])
    else
      pure values

/-! ## What the code does -/

section Code

variable {p : Bucket} {array : Bucket → List UInt8} {start limit : Nat}

/-- What is left of an array begins with the byte at its place. -/
theorem headD_drop {bytes : List UInt8} : (bytes.drop start).headD 0 = bytes.getD start 0 := by
  rw [List.headD_eq_head?_getD, List.head?_drop, List.getD_eq_getElem?_getD]

/-- Loading a string byte by byte. -/
theorem run_loadString :
    (loadString array start limit).run p = (p, content limit ((array p).drop start)) := by
  induction limit generalizing start with
  | zero =>
      simp [loadString, content]
  | succ limit inductionHypothesis =>
      rw [loadString, Code.run_load_bind, Code.run_ite, content_succ, headD_drop, List.tail_drop]
      by_cases ends : (array p).getD start 0 = 0
      · rw [if_pos ends, if_pos ends, Code.run_pure]
      · rw [if_neg ends, if_neg ends, Code.run_bind_of_run inductionHypothesis, Code.run_pure]

/-- Comparing with a string byte by byte. -/
theorem run_compareString {string : List UInt8} :
    (compareString array start limit string).run p =
      (p, strncmp limit ((array p).drop start) string) := by
  induction limit generalizing start string with
  | zero =>
      rfl
  | succ limit inductionHypothesis =>
      simp only [compareString, Code.run_load_bind, Code.run_ite, Code.run_pure,
        inductionHypothesis, strncmp, headD_drop, List.tail_drop]
      split
      · split <;> rfl
      · rfl

/-- A loop with one more round. -/
theorem run_forCode_succ
    {State : Type}
    {body : Nat → State → Code Bucket State}
    {rounds : Nat}
    {first next : State}
    {after : Bucket}
    (ran : (forCode rounds first body).run p = (after, next)) :
    (forCode (rounds + 1) first body).run p = (body rounds next).run after := by
  rw [forCode, Code.run_bind_of_run ran]

/-- A loop whose rounds only load. -/
theorem run_forCode
    {State : Type}
    {body : Nat → State → Code Bucket State}
    {next : Nat → State → State}
    {rounds : Nat}
    {first : State}
    (round : ∀ index state, (body index state).run p = (p, next index state)) :
    (forCode rounds first body).run p = (p, forLoop rounds first next) := by
  induction rounds with
  | zero =>
      rfl
  | succ rounds inductionHypothesis =>
      rw [run_forCode_succ inductionHypothesis, round, forLoop_succ]

/-- Filling two arrays in one loop. -/
theorem forLoop_both
    {rounds : Nat}
    {stack : StackContents}
    {key value : Nat → List UInt8} :
    (forLoop rounds stack fun k temporary =>
        { keys := Function.update temporary.keys k (key k)
          values := Function.update temporary.values k (value k) }) =
      { keys := fill rounds stack.keys id key
        values := fill rounds stack.values id value } := by
  induction rounds with
  | zero =>
      rfl
  | succ rounds inductionHypothesis =>
      rw [forLoop_succ, inductionHypothesis, fill_succ, fill_succ]
      rfl

/-- Copying what a string holds is copying the string. -/
theorem strncpy_content {bytes : List UInt8} :
    strncpy limit (content limit bytes) = strncpy limit bytes := by
  have same : content limit (content limit bytes) = content limit bytes := by
    rw [content_of_noNul content_noNul]
    exact List.take_of_length_le length_content_le
  rw [strncpy, same, strncpy]

/-- A copy fills its array. -/
@[simp] theorem length_strncpy {bytes : List UInt8} : (strncpy limit bytes).length = limit := by
  have whole : (content limit bytes).length ≤ limit := length_content_le
  rw [strncpy, List.length_append, List.length_replicate]
  omega

/-- The slots are copied to the stack. -/
theorem run_copySlots {stack : StackContents} :
    (copySlots stack).run p =
      (p,
        { keys := fill bucketSize stack.keys id fun k => strncpy keyCount (p.keys k)
          values := fill bucketSize stack.values id fun k => strncpy keySize (p.values k) }) := by
  rw [copySlots, ← forLoop_both]
  apply run_forCode
  intro k temporary
  rw [Code.run_bind_of_run run_loadString, Code.run_bind_of_run run_loadString, Code.run_pure]
  simp only [List.drop_zero, strncpy_content]

/-- A byte that is stored ends the bytes before it. -/
theorem take_set_succ
    {bytes : List UInt8}
    {byte : UInt8}
    {place : Nat}
    (inside : place < bytes.length) :
    (bytes.set place byte).take (place + 1) = bytes.take place ++ [byte] := by
  have still : place < (bytes.set place byte).length := by
    rw [List.length_set]
    exact inside
  rw [List.take_succ_eq_append_getElem still, List.getElem_set_self,
    List.take_set_of_le (Nat.le_refl place)]

/-- Storing bytes one after the other over the end of an array. -/
theorem run_storeBytes
    {store : Nat → UInt8 → Bucket → Bucket}
    {put : List UInt8 → Bucket → Bucket}
    (stores : ∀ place byte p, store place byte p = put ((array p).set place byte) p)
    (reads : ∀ bytes p, array (put bytes p) = bytes)
    (again : ∀ bytes former p, put bytes (put former p) = put bytes p)
    (same : ∀ p, put (array p) p = p)
    {place : Nat}
    {bytes : List UInt8}
    (fits : (array p).length = place + bytes.length) :
    (storeBytes store place bytes).run p = (put ((array p).take place ++ bytes) p, ()) := by
  induction bytes generalizing place p with
  | nil =>
      rw [List.length_nil, Nat.add_zero] at fits
      rw [List.append_nil, List.take_of_length_le (Nat.le_of_eq fits), same]
      rfl
  | cons byte rest inductionHypothesis =>
      rw [List.length_cons] at fits
      rw [storeBytes, Code.run_store_bind, stores,
        inductionHypothesis (by rw [reads, List.length_set]; omega), reads, again,
        take_set_succ (by omega), List.append_assoc, List.singleton_append]

/-- Storing a whole key slot. -/
theorem run_storeKey
    {slot : Nat}
    {bytes : List UInt8}
    (fits : (p.keys slot).length = bytes.length) :
    (storeBytes (Bucket.setKey slot) 0 bytes).run p =
      ({ p with keys := Function.update p.keys slot bytes }, ()) :=
  @run_storeBytes p (fun p => p.keys slot) (Bucket.setKey slot)
    (fun bytes p => { p with keys := Function.update p.keys slot bytes }) (fun _ _ _ => rfl)
    (fun _ _ => Function.update_self ..)
    (fun _ _ _ => by simp only [Function.update_idem])
    (fun _ => by simp only [Function.update_eq_self]) 0 bytes (by rw [fits, Nat.zero_add])

/-- Storing a whole value slot. -/
theorem run_storeValue
    {slot : Nat}
    {bytes : List UInt8}
    (fits : (p.values slot).length = bytes.length) :
    (storeBytes (Bucket.setValue slot) 0 bytes).run p =
      ({ p with values := Function.update p.values slot bytes }, ()) :=
  @run_storeBytes p (fun p => p.values slot) (Bucket.setValue slot)
    (fun bytes p => { p with values := Function.update p.values slot bytes }) (fun _ _ _ => rfl)
    (fun _ _ => Function.update_self ..)
    (fun _ _ _ => by simp only [Function.update_idem])
    (fun _ => by simp only [Function.update_eq_self]) 0 bytes (by rw [fits, Nat.zero_add])

/-- Every slot is a whole array. -/
structure Sized (p : Bucket) : Prop where
  keys : ∀ slot, slot < bucketSize → (p.keys slot).length = keyCount
  values : ∀ slot, slot < bucketSize → (p.values slot).length = keySize

/-- The copies come back one slot further. -/
theorem run_moveSlots
    {temporary : StackContents}
    {rounds : Nat}
    (sized : Sized p)
    (inside : rounds < bucketSize) :
    (moveSlots temporary rounds).run p =
      ({ p with
          keys := fill rounds p.keys (· + 1) fun k => strncpy keyCount (temporary.keys k)
          values := fill rounds p.values (· + 1) fun k => strncpy keySize (temporary.values k) },
        ()) := by
  induction rounds with
  | zero =>
      rfl
  | succ rounds inductionHypothesis =>
      have untouched : ∀ index, index < rounds → index + 1 ≠ rounds + 1 := by
        intro index earlier
        omega
      have keyFits :
          (fill rounds p.keys (· + 1) (fun k => strncpy keyCount (temporary.keys k))
              (rounds + 1)).length =
            (strncpy keyCount (temporary.keys rounds)).length := by
        rw [fill_other untouched, length_strncpy, sized.keys (rounds + 1) inside]
      have valueFits :
          (fill rounds p.values (· + 1) (fun k => strncpy keySize (temporary.values k))
              (rounds + 1)).length =
            (strncpy keySize (temporary.values rounds)).length := by
        rw [fill_other untouched, length_strncpy, sized.values (rounds + 1) inside]
      rw [moveSlots, run_forCode_succ (inductionHypothesis (Nat.lt_of_succ_lt inside)),
        Code.run_bind_of_run (run_storeKey keyFits), run_storeValue valueFits, fill_succ, fill_succ]

/-- The new strings go to slot 0 once the others have moved. -/
theorem run_storeNewest
    {key value : CString}
    (keyFits : (p.keys 0).length = keyCount)
    (valueFits : (p.values 0).length = keySize) :
    (do
        storeBytes (Bucket.setKey 0) 0 (strncpy keyCount key.bytes)
        storeBytes (Bucket.setValue 0) 0 (strncpy keySize value.bytes)
        Code.store (Bucket.setKey 0 (keyCount - 1) 0)
        Code.store (Bucket.setValue 0 (keySize - 1) 0) : Code Bucket Unit).run p =
      ({ p with
          keys := Function.update p.keys 0 ((strncpy keyCount key.bytes).set (keyCount - 1) 0)
          values :=
            Function.update p.values 0 ((strncpy keySize value.bytes).set (keySize - 1) 0) },
        ()) := by
  rw [Code.run_bind_of_run (run_storeKey (by rw [keyFits, length_strncpy])),
    Code.run_bind_of_run (run_storeValue (by rw [valueFits, length_strncpy])),
    Code.run_store_bind, Code.run_store]
  simp only [Bucket.setKey, Bucket.setValue, Function.update_self, Function.update_idem]

/-- The bytes of `kv_store_write`. -/
theorem run_kvStoreWriteCode
    {key value : CString}
    {stack : StackContents}
    (sized : Sized p) :
    (kvStoreWriteCode key value stack).run p =
      ({ keys := shiftSlots keyCount p.keys stack.keys key
         values := shiftSlots keySize p.values stack.values value
         cacheValid := false },
        ()) := by
  have first : ∀ index, index < bucketSize - 1 → index + 1 ≠ 0 :=
    fun index _ => Nat.succ_ne_zero index
  have still : Sized { p with cacheValid := false } := ⟨sized.keys, sized.values⟩
  have inside : bucketSize - 1 < bucketSize := Nat.sub_lt (by decide) (by decide)
  rw [kvStoreWriteCode, Code.run_store_bind, Code.run_bind_of_run run_copySlots]
  simp only [shiftSlots]
  generalize bucketSize - 1 = rounds at first inside ⊢
  rw [Code.run_bind_of_run (run_moveSlots still inside)]
  dsimp only
  rw [run_storeNewest]
  · exact (congrArg List.length (fill_other first)).trans (sized.keys 0 (by decide))
  · exact (congrArg List.length (fill_other first)).trans (sized.values 0 (by decide))

/-- The bytes of `kv_store_read_all`. -/
theorem run_kvStoreReadAllCode {key : CString} :
    (kvStoreReadAllCode key).run p =
      (p,
        forLoop bucketSize [] fun i collected =>
          if strncmp keyCount (p.keys (bucketSize - i - 1)) key.bytes = 0 then
            collected ++ [strndup keySize (p.values (bucketSize - i - 1))]
          else
            collected) := by
  apply run_forCode
  intro i collected
  rw [Code.run_bind_of_run run_compareString, Code.run_ite, List.drop_zero]
  split
  · rw [Code.run_bind_of_run run_loadString, Code.run_pure, List.drop_zero]
    rfl
  · rfl

end Code

end Sysprog.Kv
