import Sysprog.KvAccesses

namespace Sysprog.Kv

open CStrings CountedLoop Execution LockedSections

/-!
# Clients that run byte by byte

Any number of clients call `kv_store_write` and `kv_store_read_all`.  While one is in the
middle of its section, clients that need other buckets go on, and so do those that start a
call or return from one.  The calls that have returned are what they would be one after the
other.
-/

/-! ## The clients -/

/-- A call of a client; a null pointer is `none`. -/
inductive Request where
  | write (key value : Option CString) (stack : StackContents)
  | readAll (key : Option CString)

/-- What a call returns. -/
inductive Answer where
  | written (result : Int)
  | values (result : Option (List (List UInt8)))
  deriving DecidableEq

/-- A call that has returned. -/
structure Returned where
  process : Nat
  request : Request
  answer : Answer

/-- What the semaphores do not protect: the processes, their calls and the record of them. -/
structure Clients where
  processes : Nat → Process
  due : Nat → Option Request
  returned : List Returned

/-- The bucket and the section of a call, unless it is refused before. -/
def sectionOf (attached : Bool) : Request → Option (Nat × Code Bucket Answer)
  | .write (some key) (some value) stack =>
      if attached = false ∨ key.bytes.length < 1 then
        none
      else
        some (hash key bucketCount, do
          kvStoreWriteCode key value stack
          pure (.written 0))
  | .readAll (some key) =>
      if attached = false then
        none
      else
        some (hash key bucketCount, do
          let values ← kvStoreReadAllCode key
          pure (.values (if values = [] then none else some values)))
  | _ => none

/-- What a call returns that is refused. -/
def refusal : Request → Answer
  | .write _ _ _ => .written (-1)
  | .readAll _ => .values none

/-- What a section leaves of the caller's own variables. -/
def Request.leaves (request : Request) (caller : Process) : Process :=
  match request with
  | .write _ _ _ => { caller with cache := resetCache caller.cache }
  | .readAll _ => caller

/-- A call returns. -/
def Clients.return (clients : Clients) (process : Nat) (request : Request) (answer : Answer) :
    Clients where
  processes := clients.processes
  due := Function.update clients.due process none
  returned := clients.returned ++ [⟨process, request, answer⟩]

/-- The end of a section. -/
inductive Ends (clients : Clients) (process : Nat) : Answer → Clients → Prop where
  | ends
      {request : Request}
      {answer : Answer}
      (called : clients.due process = some request) :
      Ends clients process answer
        { clients.return process request answer with
          processes :=
            Function.update clients.processes process
              (request.leaves (clients.processes process)) }

/-- A client starts a call, or a call is refused. -/
inductive Moves (clients : Clients) (process : Nat) : Clients → Prop where
  | call
      {request : Request}
      (idle : clients.due process = none) :
      Moves clients process
        { clients with due := Function.update clients.due process (some request) }
  | refused
      {request : Request}
      (called : clients.due process = some request)
      (refuses : sectionOf (clients.processes process).attached request = none) :
      Moves clients process (clients.return process request (refusal request))

/-- The store as a component with a semaphore for each bucket. -/
def storeSections : Sections Nat Nat Clients Bucket Answer where
  entry clients process :=
    (clients.due process).bind (sectionOf (clients.processes process).attached)
  ending _ := .unlocks
  Commits := Ends
  Elsewhere := Moves

/-- The processes of a system before their first calls. -/
def Clients.initial (start : System) : Clients where
  processes := start.processes
  due := fun _ => none
  returned := []

/-- The buckets and the clients of a system. -/
def wholeStore (start : System) : Whole Nat Clients Bucket where
  world := Clients.initial start
  data := start.buckets

/-! ## Calls at once -/

/-- A call without a break. -/
def perform (system : System) (process : Nat) : Request → Answer × System
  | .write key value stack =>
      let (result, after) := kvStoreWrite system process key value stack
      (.written result, after)
  | .readAll key => (.values (kvStoreReadAll system process key), system)

/-- A call that returns what it has returned. -/
def AtOnce (before : System) (entry : Returned) (after : System) : Prop :=
  perform before entry.process entry.request = (entry.answer, after)

/-- The writes of a record that were accepted. -/
def returnedWrites (returned : List Returned) : List Write :=
  returned.filterMap fun entry =>
    match entry.request with
    | .write (some key) (some value) stack =>
        if entry.answer = .written 0 then
          some { process := entry.process, key, value, stack }
        else
          none
    | _ => none

/-! ## The sections are single calls -/

/-- The store and the processes behind the locks. -/
def storeOf (whole : Whole Nat Clients Bucket) : System where
  buckets := whole.data
  processes := whole.world.processes

/-- Every process goes on with its own call, whatever the others do. -/
theorem storeSections_framed : storeSections.Framed where
  commits := by
    intro clients later process other answer due ends different entry
    cases ends
    simp only [storeSections, Clients.return, Function.update_of_ne different] at entry ⊢
    exact entry
  elsewhere := by
    intro clients later process other due moves different entry
    cases moves
    · simp only [storeSections, Function.update_of_ne different] at entry ⊢
      exact entry
    · simp only [storeSections, Clients.return, Function.update_of_ne different] at entry ⊢
      exact entry

/-- The section of a call does what the call does. -/
theorem sectionOf_runs
    {system : System}
    {process bucket : Nat}
    {request : Request}
    {code : Code Bucket Answer}
    (sized : ∀ bucket, Sized (system.buckets bucket))
    (coded : sectionOf (system.processes process).attached request = some (bucket, code)) :
    perform system process request =
      ((code.run (system.buckets bucket)).2,
        { buckets :=
            Function.update system.buckets bucket (code.run (system.buckets bucket)).1
          processes :=
            Function.update system.processes process
              (request.leaves (system.processes process)) }) := by
  rcases request with ⟨_ | key, value, stack⟩ | _ | key
  · cases coded
  · rcases value with _ | value
    · cases coded
    · rw [sectionOf] at coded
      by_cases refuses : (system.processes process).attached = false ∨ key.bytes.length < 1
      · rw [if_pos refuses] at coded
        cases coded
      · rw [if_neg refuses] at coded
        obtain ⟨rfl, rfl⟩ := Prod.mk.inj (Option.some.inj coded)
        rw [Code.run_bind_of_run (run_kvStoreWriteCode (sized _)), Code.run_pure]
        simp only [perform, kvStoreWrite, if_neg refuses, Request.leaves]
  · cases coded
  · rw [sectionOf] at coded
    by_cases detached : (system.processes process).attached = false
    · rw [if_pos detached] at coded
      cases coded
    · rw [if_neg detached] at coded
      obtain ⟨rfl, rfl⟩ := Prod.mk.inj (Option.some.inj coded)
      rw [Code.run_bind_of_run run_kvStoreReadAllCode, Code.run_pure]
      simp only [perform, kvStoreReadAll, if_neg detached, Request.leaves,
        Function.update_eq_self]

/-- A call that is refused changes nothing. -/
theorem perform_refused
    {system : System}
    {process : Nat}
    {request : Request}
    (refuses : sectionOf (system.processes process).attached request = none) :
    perform system process request = (refusal request, system) := by
  rcases request with ⟨_ | key, value, stack⟩ | _ | key
  · rfl
  · rcases value with _ | value
    · rfl
    · rw [sectionOf] at refuses
      by_cases refused : (system.processes process).attached = false ∨ key.bytes.length < 1
      · simp only [perform, kvStoreWrite, if_pos refused, refusal]
      · rw [if_neg refused] at refuses
        cases refuses
  · rfl
  · rw [sectionOf] at refuses
    by_cases detached : (system.processes process).attached = false
    · simp only [perform, kvStoreReadAll, if_pos detached, refusal]
    · rw [if_neg detached] at refuses
      cases refuses

/-- The slots that `kv_store_write` leaves are whole arrays. -/
theorem length_shiftSlots
    {width slot : Nat}
    {slots uninitialized : Nat → List UInt8}
    {newest : CString}
    (positive : 0 < width)
    (inside : slot < bucketSize) :
    (shiftSlots width slots uninitialized newest slot).length = width := by
  rw [shiftSlots_apply positive slots uninitialized newest inside]
  split
  · rw [slotOf, length_strncpy]
  · rw [length_strncpy]

/-- A call either adds its write to the store and the record, or changes no bucket. -/
theorem AtOnce.cases
    {before after : System}
    {entry : Returned}
    (performed : AtOnce before entry after) :
    (∃ write : Write,
        returnedWrites [entry] = [write] ∧
          kvStoreWrite before write.process (some write.key) (some write.value) write.stack =
            (0, after)) ∨
      (returnedWrites [entry] = [] ∧ after = before) := by
  obtain ⟨process, request, answer⟩ := entry
  rcases request with ⟨_ | key, value, stack⟩ | key
  · exact Or.inr ⟨rfl, (Prod.mk.inj performed).2.symm⟩
  · rcases value with _ | value
    · exact Or.inr ⟨rfl, (Prod.mk.inj performed).2.symm⟩
    · by_cases refused : (before.processes process).attached = false ∨ key.bytes.length < 1
      · simp only [AtOnce, perform, kvStoreWrite, if_pos refused, Prod.mk.injEq] at performed
        obtain ⟨rfl, rfl⟩ := performed
        exact Or.inr ⟨rfl, rfl⟩
      · simp only [AtOnce, perform, kvStoreWrite, if_neg refused, Prod.mk.injEq] at performed
        obtain ⟨rfl, rfl⟩ := performed
        refine Or.inl ⟨{ process, key, value, stack }, rfl, ?_⟩
        simp only [kvStoreWrite, if_neg refused]
  · exact Or.inr ⟨rfl, (Prod.mk.inj performed).2.symm⟩

/-- Every call leaves whole arrays. -/
theorem AtOnce.sized
    {before after : System}
    {entry : Returned}
    (performed : AtOnce before entry after)
    (sized : ∀ bucket, Sized (before.buckets bucket))
    (bucket : Nat) :
    Sized (after.buckets bucket) := by
  obtain ⟨write, _, accepted⟩ | ⟨_, rfl⟩ := performed.cases
  · rw [accepted_eq accepted]
    by_cases here : bucket = hash write.key bucketCount
    · subst bucket
      simp only [Function.update_self]
      exact ⟨fun slot inside => length_shiftSlots (by decide) inside,
        fun slot inside => length_shiftSlots (by decide) inside⟩
    · simp only [Function.update_of_ne here]
      exact sized bucket
  · exact sized bucket

/-- A fresh bucket consists of whole arrays. -/
theorem sized_emptyBucket : Sized emptyBucket :=
  ⟨fun _ _ => List.length_replicate .., fun _ _ => List.length_replicate ..⟩

/-- A run section by section is a run of the calls that have returned. -/
structure Follows (start : System) (whole : Whole Nat Clients Bucket) : Prop where
  run : Run AtOnce start whole.world.returned (storeOf whole)
  sized : ∀ bucket, Sized (whole.data bucket)

/-- Every section is a call at once, and every other step is none. -/
theorem Follows.step
    {start : System}
    {before after : Whole Nat Clients Bucket}
    {process : Nat}
    (follows : Follows start before)
    (step : Whole.Step storeSections before process after) :
    Follows start after := by
  cases step with
  | @runs bucket code later entry commits =>
      obtain ⟨request, called, coded⟩ := Option.bind_eq_some_iff.mp entry
      cases commits with
      | @ends again _ calledAgain =>
          obtain rfl := Option.some.inj (called.symm.trans calledAgain)
          have performed :
              AtOnce (storeOf before) ⟨process, request, (code.run (before.data bucket)).2⟩ _ :=
            sectionOf_runs follows.sized coded
          exact ⟨follows.run.extend performed, performed.sized follows.sized⟩
  | elsewhere moves =>
      cases moves with
      | call idle => exact ⟨follows.run, follows.sized⟩
      | refused called refuses =>
          exact ⟨follows.run.extend (@perform_refused (storeOf before) _ _ refuses), follows.sized⟩

/-! ## The record and the store -/

section Record

variable {after start : System} {returned : List Returned}

/-- The buckets hold the accepted writes, in the order in which the calls returned. -/
theorem holdsHistory_atOnce
    (fresh : ∀ bucket, start.buckets bucket = emptyBucket)
    (run : Run AtOnce start returned after) :
    HoldsHistory (returnedWrites returned) after := by
  have initially : HoldsHistory (returnedWrites []) start := by
    intro bucket
    rw [fresh bucket]
    exact emptyBucket_holdsWrites
  apply run.history initially
  intro earlier before entry after held performed bucket
  rw [returnedWrites, List.filterMap_append, ← returnedWrites, ← returnedWrites, bucketWrites,
    List.filter_append]
  obtain ⟨write, added, accepted⟩ | ⟨added, rfl⟩ := performed.cases
  · rw [added]
    exact accepted_holdsWrites (held bucket) accepted
  · rw [added, List.filter_nil, List.append_nil]
    exact held bucket

/-- No call attaches or detaches a process. -/
theorem attached_atOnce
    (run : Run AtOnce start returned after)
    (process : Nat) :
    (after.processes process).attached = (start.processes process).attached := by
  have initially : (start.processes process).attached = (start.processes process).attached := rfl
  apply run.invariant initially
  intro before entry after same performed
  obtain ⟨write, _, accepted⟩ | ⟨_, rfl⟩ := performed.cases
  · rw [accepted_eq accepted, ← same]
    by_cases caller : process = write.process
    · rw [caller]
      simp only [Function.update_self]
    · simp only [Function.update_of_ne caller]
  · exact same

/-- A read among the calls that have returned finds the recent accepted writes to its key. -/
theorem readAll_atOnce
    {earlier later : List Returned}
    {process : Nat}
    {key : CString}
    {answer : Answer}
    (fresh : ∀ bucket, start.buckets bucket = emptyBucket)
    (run : Run AtOnce start returned after)
    (shape :
      returned = earlier ++ { process, request := .readAll (some key), answer } :: later)
    (attached : (start.processes process).attached = true)
    (writesShort : ∀ write ∈ returnedWrites earlier, write.key.bytes.length ≤ 15)
    (nonempty : 1 ≤ key.bytes.length)
    (short : key.bytes.length ≤ 15) :
    answer =
      .values
        (if recentValues (returnedWrites earlier) key = [] then
          none
        else
          some (recentValues (returnedWrites earlier) key)) := by
  obtain ⟨before, next, front, performed⟩ := run.at_label shape
  have held := holdsHistory_atOnce fresh front (hash key bucketCount)
  have collected := collected_recent held writesShort nonempty short
  have still : (before.processes process).attached = true := by
    rw [attached_atOnce front process, attached]
  have answered : Answer.values (kvStoreReadAll before process (some key)) = answer :=
    (Prod.mk.inj performed).1
  rw [← answered]
  simp only [kvStoreReadAll, still, Bool.true_eq_false, ↓reduceIte, collected]

end Record

/-! ## No call is stuck -/

section Progress

variable {fine : Fine Nat Nat Clients Bucket Answer} {process bucket : Nat} {request : Request}

/-- A process that gives a bucket back did so before the holder of a bucket changed. -/
theorem leaving_before
    {holder : Nat → Option (Nat × Pending Bucket Answer)}
    {value : Option (Nat × Pending Bucket Answer)}
    {lock : Nat}
    (leaving : Function.update holder lock value bucket = some (process, .leaving))
    (old : value ≠ some (process, .leaving)) :
    holder bucket = some (process, .leaving) := by
  by_cases here : bucket = lock
  · subst here
    rw [Function.update_self] at leaving
    exact absurd leaving old
  · rwa [Function.update_of_ne here] at leaving

/-- A process that gives a bucket back has returned from its call. -/
theorem leaving_idle
    {start : System}
    (reachable : Reachable (Fine.Step storeSections) (Fine.initial (wholeStore start)) fine) :
    ∀ bucket process,
      fine.holder bucket = some (process, .leaving) → fine.world.due process = none := by
  have initially :
      ∀ bucket process,
        (Fine.initial (wholeStore start) : Fine Nat Nat Clients Bucket Answer).holder bucket =
            some (process, .leaving) →
        (Clients.initial start).due process = none :=
    fun _ _ _ => rfl
  apply reachable.invariant initially
  intro before thread after idle step bucket process leaving
  cases step with
  | enter => exact idle bucket process (leaving_before leaving (by simp))
  | act => exact idle bucket process (leaving_before leaving (by simp))
  | stay holds ending => cases ending
  | release holds ending => cases ending
  | @commit lock result later holds _ commits =>
      cases commits with
      | ends called =>
          by_cases own : process = thread
          · rw [own]
            exact Function.update_self ..
          · refine (Function.update_of_ne own ..).trans (idle bucket process ?_)
            exact leaving_before leaving (by simpa using Ne.symm own)
  | unlock => exact idle bucket process (leaving_before leaving (by simp))
  | elsewhere free moves =>
      have own : process ≠ thread := by
        rintro rfl
        exact free _ _ leaving
      cases moves with
      | call _ => exact (Function.update_of_ne own ..).trans (idle bucket process leaving)
      | refused _ _ => exact (Function.update_of_ne own ..).trans (idle bucket process leaving)

/-- The holder of a bucket can finish its call and give the bucket back. -/
theorem finishes
    {code : Code Bucket Answer}
    (called : fine.world.due process = some request)
    (holds : fine.holder bucket = some (process, .running code)) :
    ∃ later answer,
      Reachable (Fine.Step storeSections) fine later ∧
        later.world.returned = fine.world.returned ++ [⟨process, request, answer⟩] ∧
        later.holder = Function.update fine.holder bucket none ∧
        ∀ other,
          other ≠ process →
          later.world.due other = fine.world.due other ∧
            later.world.processes other = fine.world.processes other := by
  have done :=
    @Fine.reachable_done _ _ _ _ _ _ storeSections fine fine process bucket code .refl holds
  have committed := done.next (.commit (Function.update_self ..) rfl (.ends called))
  have unlocked := committed.next (.unlock (Function.update_self ..))
  refine ⟨_, _, unlocked, rfl, ?_, fun other different => ⟨?_, ?_⟩⟩
  · simp only [Function.update_idem]
  · exact Function.update_of_ne different ..
  · exact Function.update_of_ne different ..

/-- A process that holds nothing returns from its call once its bucket is free. -/
theorem returns_of_free
    (called : fine.world.due process = some request)
    (free : fine.Free process)
    (available :
      ∀ bucket code,
        sectionOf (fine.world.processes process).attached request = some (bucket, code) →
        fine.holder bucket = none) :
    ∃ later answer,
      Reachable (Fine.Step storeSections) fine later ∧
        later.world.returned = fine.world.returned ++ [⟨process, request, answer⟩] := by
  cases coded : sectionOf (fine.world.processes process).attached request with
  | none =>
      exact ⟨_, _, Reachable.refl.next (.elsewhere free (.refused called coded)), rfl⟩
  | some section' =>
      obtain ⟨bucket, code⟩ := section'
      have entry : storeSections.entry fine.world process = some (bucket, code) := by
        simp only [storeSections, called, Option.bind_some]
        exact coded
      have entered : Reachable (Fine.Step storeSections) fine _ :=
        Reachable.refl.next (.enter free (available bucket code coded) entry)
      obtain ⟨later, answer, onward, returned, _⟩ :=
        @finishes { fine with
          holder := Function.update fine.holder bucket (some (process, .running code)) }
          process bucket request code called (Function.update_self ..)
      exact ⟨later, answer, entered.trans onward, returned⟩

/-- A bucket that a process waits for can be given back. -/
theorem bucket_freed
    {start : System}
    (reachable : Reachable (Fine.Step storeSections) (Fine.initial (wholeStore start)) fine)
    (free : fine.Free process)
    (bucket : Nat) :
    ∃ later others,
      Reachable (Fine.Step storeSections) fine later ∧
        later.world.returned = fine.world.returned ++ others ∧
        later.world.due process = fine.world.due process ∧
        later.world.processes process = fine.world.processes process ∧
        later.Free process ∧
        later.holder bucket = none := by
  have stillFree :
      ∀ lock pending, Function.update fine.holder bucket none lock ≠ some (process, pending) := by
    intro lock pending
    by_cases here : lock = bucket
    · rw [here, Function.update_self]
      exact (Option.some_ne_none _).symm
    · rw [Function.update_of_ne here]
      exact free lock pending
  cases holder : fine.holder bucket with
  | none =>
      exact ⟨fine, [], .refl, (List.append_nil _).symm, rfl, rfl, free, holder⟩
  | some held =>
      obtain ⟨other, code | _⟩ := held
      · obtain ⟨whole, _, matched⟩ := exists_whole storeSections_framed reachable
        have agrees := matched.data bucket
        rw [holder] at agrees
        obtain ⟨_, entry, _⟩ := agrees
        obtain ⟨own, isDue, _⟩ := Option.bind_eq_some_iff.mp entry
        obtain ⟨later, answer, onward, returned, holders, others⟩ := finishes isDue holder
        have different : process ≠ other := by
          rintro rfl
          exact free _ _ holder
        refine ⟨later, _, onward, returned, (others process different).1,
          (others process different).2, ?_, ?_⟩
        · intro lock pending
          rw [holders]
          exact stillFree lock pending
        · rw [holders, Function.update_self]
      · exact ⟨_, [], Reachable.refl.next (.unlock holder), (List.append_nil _).symm, rfl, rfl,
          stillFree, Function.update_self ..⟩

/-- From every state that is reached, a call in progress can return. -/
theorem calls_return
    {start : System}
    (reachable : Reachable (Fine.Step storeSections) (Fine.initial (wholeStore start)) fine)
    (called : fine.world.due process = some request) :
    ∃ later others answer,
      Reachable (Fine.Step storeSections) fine later ∧
        later.world.returned =
          fine.world.returned ++ others ++ [⟨process, request, answer⟩] := by
  by_cases free : fine.Free process
  · cases coded : sectionOf (fine.world.processes process).attached request with
    | none =>
        obtain ⟨later, answer, onward, returned⟩ :=
          returns_of_free called free fun bucket code some => by
            rw [coded] at some
            cases some
        refine ⟨later, [], answer, onward, ?_⟩
        rw [List.append_nil, returned]
    | some due =>
        obtain ⟨bucket, code⟩ := due
        obtain ⟨ready, others, first, before, sameDue, sameProcess, stillFree, available⟩ :=
          bucket_freed reachable free bucket
        obtain ⟨later, answer, onward, returned⟩ :=
          returns_of_free (sameDue.trans called) stillFree fun lock again coded' => by
            rw [sameProcess, coded] at coded'
            rw [← (Prod.mk.inj (Option.some.inj coded')).1]
            exact available
        refine ⟨later, others, answer, first.trans onward, ?_⟩
        rw [returned, before]
  · simp only [Fine.Free, not_forall, not_not] at free
    obtain ⟨bucket, code | _, holds⟩ := free
    · obtain ⟨later, answer, onward, returned, _⟩ := finishes called holds
      refine ⟨later, [], answer, onward, ?_⟩
      rw [List.append_nil, returned]
    · rw [leaving_idle reachable bucket process holds] at called
      cases called

end Progress

/--
In every interleaving of the loads and stores of any number of clients that call
`kv_store_write` and `kv_store_read_all` with any arguments, on a fresh store: the calls
return what they would return one after the other, in the order in which they return, and a
bucket that nobody is in the middle of holds what they would leave.  So every read of a key
of 1 to 15 bytes returns, oldest first, its values among the last 512 accepted writes to its
bucket that returned before it.  No call is ever stuck: it can return from every state.
-/
theorem calls_take_effect_at_once
    {start : System}
    {fine : Fine Nat Nat Clients Bucket Answer}
    (fresh : ∀ bucket, start.buckets bucket = emptyBucket)
    (reachable : Reachable (Fine.Step storeSections) (Fine.initial (wholeStore start)) fine) :
    (∃ system,
        Run AtOnce start fine.world.returned system ∧
          system.processes = fine.world.processes ∧
          ∀ bucket,
            (∀ process code, fine.holder bucket ≠ some (process, .running code)) →
            system.buckets bucket = fine.data bucket) ∧
      (∀ earlier process key answer later,
        fine.world.returned =
            earlier ++ { process, request := .readAll (some key), answer } :: later →
        (start.processes process).attached = true →
        (∀ write ∈ returnedWrites earlier, write.key.bytes.length ≤ 15) →
        1 ≤ key.bytes.length →
        key.bytes.length ≤ 15 →
        answer =
          .values
            (if recentValues (returnedWrites earlier) key = [] then
              none
            else
              some (recentValues (returnedWrites earlier) key))) ∧
      ∀ process request,
        fine.world.due process = some request →
        ∃ later others answer,
          Reachable (Fine.Step storeSections) fine later ∧
            later.world.returned =
              fine.world.returned ++ others ++ [⟨process, request, answer⟩] := by
  obtain ⟨whole, reached, matched⟩ := exists_whole storeSections_framed reachable
  have initially : Follows start (wholeStore start) := by
    refine ⟨.stop, fun bucket => ?_⟩
    rw [show (wholeStore start).data bucket = emptyBucket from fresh bucket]
    exact sized_emptyBucket
  have follows : Follows start whole := reached.invariant initially fun kept step => kept.step step
  have run := follows.run
  rw [matched.world] at run
  refine ⟨⟨storeOf whole, run, ?_, fun bucket nobody => ?_⟩, ?_, ?_⟩
  · exact congrArg Clients.processes matched.world
  · have agrees := matched.data bucket
    cases holder : fine.holder bucket with
    | none =>
        rw [holder] at agrees
        exact agrees
    | some held =>
        obtain ⟨process, code | _⟩ := held
        · exact (nobody process code holder).elim
        · rw [holder] at agrees
          exact agrees
  · intro earlier process key answer later shape attached writesShort nonempty short
    exact readAll_atOnce fresh run shape attached writesShort nonempty short
  · intro process request called
    exact calls_return reachable called

/-- A process that holds nothing calls a function and returns from it. -/
theorem called_alone
    {start fine : Fine Nat Nat Clients Bucket Answer}
    {process bucket : Nat}
    {request : Request}
    {code : Code Bucket Answer}
    (reachable : Reachable (Fine.Step storeSections) start fine)
    (nobody : ∀ bucket, fine.holder bucket = none)
    (idle : fine.world.due process = none)
    (coded : sectionOf (fine.world.processes process).attached request = some (bucket, code)) :
    ∃ later answer,
      Reachable (Fine.Step storeSections) start later ∧
        later.world.returned = fine.world.returned ++ [⟨process, request, answer⟩] ∧
        (∀ bucket, later.holder bucket = none) ∧
        ∀ other,
          other ≠ process →
          later.world.due other = fine.world.due other ∧
            later.world.processes other = fine.world.processes other := by
  have free : fine.Free process := by
    intro bucket pending
    rw [nobody bucket]
    exact (Option.some_ne_none _).symm
  have called := reachable.next (@Fine.Step.elsewhere _ _ _ _ _ _ storeSections _ _ _ free
    (@Moves.call _ _ request idle))
  have entry :
      storeSections.entry
          { fine.world with due := Function.update fine.world.due process (some request) } process =
        some (bucket, code) := by
    simp only [storeSections, Function.update_self, Option.bind_some]
    exact coded
  have entered := called.next (@Fine.Step.enter _ _ _ _ _ _ storeSections _ _ _ _ free
    (nobody bucket) entry)
  have isCalled := Function.update_self process (some request) fine.world.due
  have holds :=
    Function.update_self bucket (some (process, Pending.running code)) fine.holder
  obtain ⟨later, answer, onward, returned, holders, others⟩ :=
    @finishes
      { world := { fine.world with due := Function.update fine.world.due process (some request) }
        data := fine.data
        holder := Function.update fine.holder bucket (some (process, .running code)) }
      process bucket request code isCalled holds
  refine ⟨later, answer, entered.trans onward, returned, fun lock => ?_, fun other different => ?_⟩
  · rw [holders]
    by_cases here : lock = bucket
    · rw [here, Function.update_self]
    · rw [Function.update_of_ne here]
      exact (Function.update_of_ne here ..).trans (nobody lock)
  · rw [(others other different).1, (others other different).2]
    exact ⟨Function.update_of_ne different .., rfl⟩

/-- One process writes, and another one reads back what it wrote. -/
theorem calls_take_effect_at_once_sampleWrite :
    ∃ fine : Fine Nat Nat Clients Bucket Answer,
      Reachable (Fine.Step storeSections) (Fine.initial (wholeStore freshSystem)) fine ∧
        fine.world.returned =
          [⟨1, .write (some sampleWrite.key) (some sampleWrite.value) sampleWrite.stack,
              .written 0⟩,
            ⟨0, .readAll (some sampleWrite.key), .values (some [[118]])⟩] := by
  obtain ⟨written, first, reached, returned, nobody, others⟩ :=
    @called_alone (Fine.initial (wholeStore freshSystem)) _ 1 _
      (.write (some sampleWrite.key) (some sampleWrite.value) sampleWrite.stack) _ .refl
      (fun _ => rfl) rfl rfl
  obtain ⟨otherDue, otherProcess⟩ := others 0 (by decide)
  obtain ⟨fine, second, onward, bothReturned, _, _⟩ :=
    @called_alone _ written 0 _ (.readAll (some sampleWrite.key)) _ reached nobody otherDue
      (by rw [otherProcess]; rfl)
  rw [returned] at bothReturned
  obtain ⟨⟨_, run, _⟩, reads, _⟩ :=
    @calls_take_effect_at_once freshSystem fine (fun _ => rfl) onward
  have shape :
      fine.world.returned =
        [] ++ ⟨1, .write (some sampleWrite.key) (some sampleWrite.value) sampleWrite.stack, first⟩ ::
          [⟨0, .readAll (some sampleWrite.key), second⟩] :=
    bothReturned
  obtain ⟨before, _, nothing, performed⟩ := run.at_label shape
  obtain rfl := nothing.eq_of_nil
  obtain rfl : Answer.written 0 = first := (Prod.mk.inj performed).1
  have short : ∀ write ∈ [sampleWrite], write.key.bytes.length ≤ 15 := by decide
  obtain rfl : second = .values (some [[118]]) :=
    (reads _ 0 sampleWrite.key second [] bothReturned rfl short (by decide) (by decide)).trans
      (by decide)
  exact ⟨fine, onward, bothReturned⟩

end Sysprog.Kv
