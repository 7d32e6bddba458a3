import Mathlib.Data.Fintype.Basic
import Mathlib.Data.List.Nodup
import Sysprog.KvAttachModel

namespace Sysprog.KvAttach

open Execution

/-!
# Who is counted in a store

Nothing orders the steps by which processes attach to a store and leave it.  As long as
no store is initialised while some process is counted in it, and no process counts itself
in a store whose last client has left, the counter of every store is the number of
processes counted in it, and the name is only taken away when no process is attached.
-/

/-! ## Phases -/

/-- The object a process has opened. -/
def Phase.object : Phase → Option Nat
  | .truncating object | .mapping object _ | .initialising object | .counting object
  | .attached object | .leaving object | .unmapping object _ => some object
  | _ => none

/-- The store whose counter includes the process. -/
def Phase.counted : Phase → Option Nat
  | .attached object | .leaving object => some object
  | _ => none

/-- The process is going to unlink the name. -/
def Phase.unlinks : Phase → Bool
  | .unmapping _ last => last
  | .unlinking => true
  | _ => false

/-- The process is in no call. -/
def Phase.outside : Phase → Bool
  | .idle | .attached _ | .dead => true
  | _ => false

/-- What is counted is opened. -/
theorem Phase.object_of_counted
    {phase : Phase}
    {object : Nat}
    (counted : phase.counted = some object) :
    phase.object = some object := by
  cases phase <;> simp_all [Phase.counted, Phase.object]

variable {Process : Type} [DecidableEq Process]

/-- `kv_store_create` has been completed and `kv_store_destroy` not been started. -/
def Attached (state : State Process) (process : Process) : Prop :=
  ∃ object, state.phases process = .attached object

/-- No process is inside `kv_store_create` or `kv_store_destroy`. -/
def Quiet (state : State Process) : Prop :=
  ∀ process, (state.phases process).outside = true

/--
When a process initialises a store, no other process is counted in it, and when one counts
itself, the store has not been counted down below one.
-/
def Orderly (before : State Process) (label : Process × Action) (_ : State Process) : Prop :=
  match label.2, before.phases label.1 with
  | .initialise, .initialising object =>
      ∀ other, (before.phases other).counted ≠ some object
  | .countUp, .counting object => (before.objects object).closing = false
  | _, _ => True

/--
The processes counted in every store, and what is known of stores that are gone: they
have been counted down below one, and at most one process has yet to unlink the name.
-/
structure Counted (state : State Process) (clients : Nat → List Process) : Prop where
  nodup : ∀ object, (clients object).Nodup
  mem : ∀ object process, process ∈ clients object ↔ (state.phases process).counted = some object
  length : ∀ object, (state.objects object).clients = (clients object).length
  closing : ∀ object, (state.objects object).closing = true → clients object = []
  named : ∀ object, state.names = some object → object < state.allocated
  others :
    ∀ object < state.allocated,
      state.names = some object ∨ (state.objects object).closing = true
  created :
    ∀ process object, (state.phases process).object = some object → object < state.allocated
  unlinks :
    ∀ process,
      (state.phases process).unlinks = true →
      ∃ object, state.names = some object ∧ (state.objects object).closing = true
  unlinksOnce :
    ∀ first second,
      (state.phases first).unlinks = true →
      (state.phases second).unlinks = true →
      first = second

section Moves

variable
  {state : State Process}
  {clients : Nat → List Process}
  {process : Process}
  {phase : Phase}

@[simp] theorem phases_move :
    (state.move process phase).phases = Function.update state.phases process phase :=
  rfl

omit [DecidableEq Process] in
/-- Before anything is called nobody is counted. -/
theorem counted_initial : Counted (State.initial : State Process) fun _ => [] where
  nodup := by simp
  mem := by simp [State.initial, Phase.counted]
  length := by simp [State.initial, SharedObject.fresh]
  closing := by simp
  named := by simp [State.initial]
  others := by simp [State.initial]
  created := by simp [State.initial, Phase.object]
  unlinks := by simp [State.initial, Phase.unlinks]
  unlinksOnce := by simp [State.initial, Phase.unlinks]

/-- A process goes on without being counted in another store or another plan to unlink. -/
theorem Counted.move
    (counted : Counted state clients)
    (sameCount : phase.counted = (state.phases process).counted)
    (sameUnlinks : phase.unlinks = (state.phases process).unlinks)
    (inside : ∀ object, phase.object = some object → object < state.allocated) :
    Counted (state.move process phase) clients where
  nodup := counted.nodup
  mem := by
    intro object other
    rw [counted.mem, phases_move]
    by_cases same : other = process
    · rw [same, Function.update_self, sameCount]
    · rw [Function.update_of_ne same]
  length := counted.length
  closing := counted.closing
  named := counted.named
  others := counted.others
  created := by
    intro other object
    rw [phases_move]
    by_cases same : other = process
    · rw [same, Function.update_self]
      exact inside object
    · rw [Function.update_of_ne same]
      exact counted.created other object
  unlinks := by
    intro other
    rw [phases_move]
    by_cases same : other = process
    · rw [same, Function.update_self, sameUnlinks]
      exact counted.unlinks process
    · rw [Function.update_of_ne same]
      exact counted.unlinks other
  unlinksOnce := by
    have before (other : Process) :
        ((state.move process phase).phases other).unlinks = (state.phases other).unlinks := by
      rw [phases_move]
      by_cases same : other = process
      · rw [same, Function.update_self, sameUnlinks]
      · rw [Function.update_of_ne same]
    intro first second
    rw [before, before]
    exact counted.unlinksOnce first second

/-- A process goes on to a phase that is counted alike and holds no other store. -/
theorem Counted.goesOn
    {former : Phase}
    (counted : Counted state clients)
    (next : state.phases process = former)
    (sameCount : phase.counted = former.counted)
    (sameUnlinks : phase.unlinks = former.unlinks)
    (inside : ∀ object, phase.object = some object → former.object = some object) :
    Counted (state.move process phase) clients := by
  subst next
  exact counted.move sameCount sameUnlinks fun object same =>
    counted.created process object (inside object same)

omit [DecidableEq Process] in
/-- The contents of a store change, but not who is counted in it. -/
theorem Counted.store
    {object : Nat}
    {contents : SharedObject}
    (counted : Counted state clients)
    (sameClients : contents.clients = (state.objects object).clients)
    (sameClosing : contents.closing = (state.objects object).closing) :
    Counted (state.store object contents) clients := by
  have before (other : Nat) :
      ((state.store object contents).objects other).clients = (state.objects other).clients ∧
        ((state.store object contents).objects other).closing =
          (state.objects other).closing := by
    by_cases same : other = object
    · subst same
      simp [State.store, sameClients, sameClosing]
    · simp [State.store, same]
  refine
    { counted with
      length := ?_
      closing := ?_
      others := ?_
      unlinks := ?_ }
  · intro other
    rw [(before other).1]
    exact counted.length other
  · intro other
    rw [(before other).2]
    exact counted.closing other
  · intro other
    rw [(before other).2]
    exact counted.others other
  · intro other unlinks
    obtain ⟨named, same, closing⟩ := counted.unlinks other unlinks
    exact ⟨named, same, (before named).2.trans closing⟩

omit [DecidableEq Process] in
/-- While the name is free, nobody is going to unlink it. -/
theorem Counted.unlinks_of_free
    (counted : Counted state clients)
    (free : state.names = none)
    (other : Process) :
    (state.phases other).unlinks = false := by
  rw [Bool.eq_false_iff]
  intro unlinks
  obtain ⟨object, named, _⟩ := counted.unlinks other unlinks
  simp [free] at named

omit [DecidableEq Process] in
/-- A new object under the free name. -/
theorem Counted.create
    (counted : Counted state clients)
    (free : state.names = none) :
    Counted state.create clients := by
  have empty : clients state.allocated = [] := by
    rw [List.eq_nil_iff_forall_not_mem]
    intro other member
    have opened := Phase.object_of_counted ((counted.mem _ other).mp member)
    exact Nat.lt_irrefl _ (counted.created other _ opened)
  have gone : ∀ object < state.allocated, (state.objects object).closing = true := by
    intro object older
    simpa [free] using counted.others object older
  refine
    { nodup := counted.nodup
      mem := counted.mem
      length := ?_
      closing := ?_
      named := ?_
      others := ?_
      created := fun other object opened =>
        Nat.lt_succ_of_lt (counted.created other object opened)
      unlinks := ?_
      unlinksOnce := counted.unlinksOnce }
  · intro object
    by_cases same : object = state.allocated
    · simp [State.create, same, empty, SharedObject.fresh]
    · simp [State.create, same, counted.length]
  · intro object
    by_cases same : object = state.allocated
    · simp [same, empty]
    · simpa [State.create, same] using counted.closing object
  · intro object named
    obtain rfl : state.allocated = object := by simpa [State.create] using named
    simp [State.create]
  · intro object older
    by_cases same : object = state.allocated
    · simp [State.create, same]
    · have before : object < state.allocated := by
        simp only [State.create] at older
        omega
      simp [State.create, same, gone object before]
  · intro other unlinks
    have none := counted.unlinks_of_free free other
    simp only [State.create] at unlinks
    simp [none] at unlinks

/-- A process goes on, and the store it uses counts other processes than before. -/
theorem Counted.recount
    {object : Nat}
    {contents : SharedObject}
    {present : List Process}
    (counted : Counted state clients)
    (inside : ∀ other, phase.object = some other → other < state.allocated)
    (elsewhere :
      ∀ other ≠ object,
        phase.counted = some other ↔ (state.phases process).counted = some other)
    (nodup : present.Nodup)
    (mem :
      ∀ one,
        one ∈ present ↔
          (Function.update state.phases process phase one).counted = some object)
    (length : contents.clients = present.length)
    (closing : contents.closing = true → present = [])
    (closed : (state.objects object).closing = true → contents.closing = true)
    (unlinks :
      ∀ one,
        (Function.update state.phases process phase one).unlinks = true →
        ∃ name, state.names = some name ∧
          (Function.update state.objects object contents name).closing = true)
    (unlinksOnce :
      ∀ first second,
        (Function.update state.phases process phase first).unlinks = true →
        (Function.update state.phases process phase second).unlinks = true →
        first = second) :
    Counted ((state.store object contents).move process phase)
      (Function.update clients object present) := by
  refine
    { nodup := ?_
      mem := ?_
      length := ?_
      closing := ?_
      named := counted.named
      others := ?_
      created := ?_
      unlinks := unlinks
      unlinksOnce := unlinksOnce }
  · intro other
    by_cases same : other = object
    · simp [same, nodup]
    · simp [same, counted.nodup]
  · intro other one
    by_cases same : other = object
    · subst same
      rw [Function.update_self]
      exact mem one
    · rw [Function.update_of_ne same, counted.mem, phases_move]
      by_cases sameProcess : one = process
      · rw [sameProcess, Function.update_self]
        exact (elsewhere other same).symm
      · rw [Function.update_of_ne sameProcess]
        rfl
  · intro other
    by_cases same : other = object
    · simp [State.move, State.store, same, length]
    · simp [State.move, State.store, same, counted.length]
  · intro other
    by_cases same : other = object
    · simpa [State.move, State.store, same] using closing
    · simpa [State.move, State.store, same] using counted.closing other
  · intro other older
    by_cases same : other = object
    · subst same
      simpa [State.move, State.store] using (counted.others other older).imp_right closed
    · simpa [State.move, State.store, same] using counted.others other older
  · intro one other
    rw [phases_move]
    by_cases same : one = process
    · rw [same, Function.update_self]
      exact inside other
    · rw [Function.update_of_ne same]
      exact counted.created one other

/-- A process counts itself in a store that is still in use. -/
theorem Counted.countUp
    {object : Nat}
    {contents : SharedObject}
    (counted : Counted state clients)
    (next : state.phases process = .counting object)
    (used : (state.objects object).closing = false)
    (oneMore : contents.clients = (state.objects object).clients + 1)
    (sameClosing : contents.closing = (state.objects object).closing) :
    Counted ((state.store object contents).move process (.attached object))
      (Function.update clients object (process :: clients object)) := by
  have outside : process ∉ clients object := by
    rw [counted.mem, next]
    simp [Phase.counted]
  have unlinksKept (other : Process) :
      (Function.update state.phases process (.attached object) other).unlinks =
        (state.phases other).unlinks := by
    by_cases same : other = process
    · simp [same, next, Phase.unlinks]
    · simp [same]
  have closingKept (other : Nat) :
      (Function.update state.objects object contents other).closing =
        (state.objects other).closing := by
    by_cases same : other = object
    · simp [same, sameClosing]
    · simp [same]
  refine counted.recount ?_ ?_ ?_ ?_ ?_ ?_ ?_ ?_ ?_
  · intro other opened
    exact counted.created process other (by rw [next]; exact opened)
  · intro other apart
    simp [next, Phase.counted, apart.symm]
  · exact List.nodup_cons.mpr ⟨outside, counted.nodup object⟩
  · intro one
    by_cases same : one = process
    · simp [same, Phase.counted]
    · simp [same, counted.mem]
  · rw [oneMore, counted.length, List.length_cons]
    rfl
  · simp [sameClosing, used]
  · simp [used]
  · intro one
    simp only [unlinksKept, closingKept]
    exact counted.unlinks one
  · intro first second
    simp only [unlinksKept]
    exact counted.unlinksOnce first second

/-- A process leaves a store, and the last one plans to unlink the name. -/
theorem Counted.countDown
    {object : Nat}
    {after : State Process}
    (counted : Counted state clients)
    (next : state.phases process = .leaving object)
    (taken : KvAttach.countDown state process object = some after) :
    Counted after (Function.update clients object ((clients object).erase process)) := by
  have member : process ∈ clients object := by
    rw [counted.mem, next]
    rfl
  have used : (state.objects object).closing = false := by
    rw [Bool.eq_false_iff]
    intro closing
    simp [counted.closing object closing] at member
  have named : state.names = some object := by
    have inside := counted.created process object (by rw [next]; rfl)
    simpa [used] using counted.others object inside
  have noOther : ∀ other, (state.phases other).unlinks = false := by
    intro other
    rw [Bool.eq_false_iff]
    intro unlinks
    obtain ⟨same, sameName, closing⟩ := counted.unlinks other unlinks
    obtain rfl : object = same := Option.some.inj (named.symm.trans sameName)
    simp [used] at closing
  have onlyThis (last : Bool) (one : Process)
      (unlinks :
        (Function.update state.phases process (.unmapping object last) one).unlinks = true) :
      one = process ∧ last = true := by
    by_cases same : one = process
    · exact ⟨same, by simpa [same, Phase.unlinks] using unlinks⟩
    · simp [same, noOther] at unlinks
  have count : (state.objects object).clients = ((clients object).erase process).length + 1 := by
    rw [counted.length, List.length_erase_of_mem member]
    have positive := List.length_pos_of_mem member
    omega
  have last : (state.objects object).clients - 1 < 1 ↔ (clients object).erase process = [] := by
    rw [count, ← List.length_eq_zero_iff]
    omega
  simp only [KvAttach.countDown] at taken
  split at taken
  · obtain rfl := Option.some.inj taken
    refine counted.recount ?_ ?_ ?_ ?_ ?_ ?_ ?_ ?_ ?_
    · intro other opened
      exact counted.created process other (by rw [next]; exact opened)
    · intro other apart
      simp [next, Phase.counted, apart.symm]
    · exact (counted.nodup object).erase process
    · intro one
      by_cases same : one = process
      · simp [same, Phase.counted, (counted.nodup object).not_mem_erase]
      · simp [same, counted.mem, List.mem_erase_of_ne]
    · rw [count]
      simp
    · simp only [used, Bool.false_or, decide_eq_true_eq]
      exact last.mp
    · simp [used]
    · intro one unlinks
      obtain ⟨_, isLast⟩ := onlyThis _ one unlinks
      exact ⟨object, named, by simpa [used] using isLast⟩
    · intro first second firstUnlinks secondUnlinks
      exact (onlyThis _ first firstUnlinks).1.trans (onlyThis _ second secondUnlinks).1.symm
  · simp at taken

/-- The name is taken away once nobody is counted anywhere. -/
theorem Counted.unlink
    (counted : Counted state clients)
    (next : state.phases process = .unlinking) :
    Counted (State.move { state with names := none } process .idle) clients := by
  obtain ⟨object, named, closing⟩ := counted.unlinks process (by rw [next]; rfl)
  have none : ∀ other, other ≠ process → (state.phases other).unlinks = false := by
    intro other apart
    rw [Bool.eq_false_iff]
    intro unlinks
    exact apart (counted.unlinksOnce other process unlinks (by rw [next]; rfl))
  have noneLeft (other : Process) :
      (Function.update state.phases process .idle other).unlinks = false := by
    by_cases same : other = process
    · simp [same, Phase.unlinks]
    · simp [same, none other same]
  refine
    { nodup := counted.nodup
      mem := ?_
      length := counted.length
      closing := counted.closing
      named := by simp [State.move]
      others := ?_
      created := ?_
      unlinks := ?_
      unlinksOnce := ?_ }
  · intro other one
    rw [counted.mem]
    by_cases same : one = process
    · simp [same, next, Phase.counted]
    · simp [same]
  · intro other older
    rcases counted.others other older with same | gone
    · rw [named] at same
      obtain rfl := Option.some.inj same
      exact Or.inr closing
    · exact Or.inr gone
  · intro one other
    by_cases same : one = process
    · simp [same, Phase.object]
    · simpa [same, State.move] using counted.created one other
  · intro other unlinks
    simp [State.move, noneLeft] at unlinks
  · intro first second unlinks
    simp [State.move, noneLeft] at unlinks

/-- A successful `shm_open` leads to an object that was or is now created. -/
theorem Counted.shmOpen
    {clear : Bool}
    {after : State Process}
    (counted : Counted state clients)
    (next : state.phases process = .opening clear)
    (taken : KvAttach.shmOpen state process clear = some after) :
    Counted after clients := by
  have notCounted (object : Nat) (flag : Bool) : (opened object flag).counted = none := by
    cases flag <;> rfl
  have notUnlinks (object : Nat) (flag : Bool) : (opened object flag).unlinks = false := by
    cases flag <;> rfl
  have afterwards (object : Nat) (flag : Bool) : (opened object flag).object = some object := by
    cases flag <;> rfl
  simp only [KvAttach.shmOpen] at taken
  cases named : state.names with
  | some object =>
      rw [named] at taken
      obtain rfl := Option.some.inj taken
      refine counted.move (by rw [next, notCounted]; rfl) (by rw [next, notUnlinks]; rfl) ?_
      intro other same
      rw [afterwards] at same
      obtain rfl := Option.some.inj same
      exact counted.named _ named
  | none =>
      rw [named] at taken
      dsimp only at taken
      split at taken
      · obtain rfl := Option.some.inj taken
        refine (counted.create named).move ?_ ?_ ?_
        · rw [notCounted]
          exact (congrArg Phase.counted next).symm
        · rw [notUnlinks]
          exact (congrArg Phase.unlinks next).symm
        · intro other same
          rw [afterwards] at same
          obtain rfl := Option.some.inj same
          exact Nat.lt_succ_self _
      · simp at taken

/-- Every orderly step keeps the counters right. -/
theorem Counted.step
    {label : Process × Action}
    {after : State Process}
    (counted : Counted state clients)
    (step : Step state label after)
    (orderly : Orderly state label after) :
    ∃ clients', Counted after clients' := by
  obtain ⟨process, action⟩ := label
  simp only [Step, perform] at step
  split at step
  -- createBegins, without and with a store
  · rename_i next
    obtain rfl := Option.some.inj step
    exact ⟨clients, counted.goesOn next rfl rfl nofun⟩
  · obtain rfl := Option.some.inj step
    exact ⟨clients, counted⟩
  -- smExists
  · rename_i next
    split at step
    · simp at step
    · obtain rfl := Option.some.inj step
      exact ⟨clients, counted.goesOn next rfl rfl nofun⟩
  -- shmOpen
  · rename_i next
    exact ⟨clients, counted.shmOpen next step⟩
  · rename_i next
    obtain rfl := Option.some.inj step
    exact ⟨clients, counted.goesOn next rfl rfl nofun⟩
  -- ftruncate
  · rename_i object next
    obtain rfl := Option.some.inj step
    have extended := @Counted.store _ state clients object
      { state.objects object with sized := true } counted rfl rfl
    exact ⟨clients, extended.goesOn next rfl rfl fun _ => id⟩
  · rename_i next
    obtain rfl := Option.some.inj step
    exact ⟨clients, counted.goesOn next rfl rfl nofun⟩
  -- mmap
  · rename_i object clear next
    obtain rfl := Option.some.inj step
    refine ⟨clients, counted.goesOn next ?_ ?_ ?_⟩
    · cases clear <;> rfl
    · cases clear <;> rfl
    · cases clear <;> exact fun _ => id
  · rename_i next
    obtain rfl := Option.some.inj step
    exact ⟨clients, counted.goesOn next rfl rfl nofun⟩
  -- initialise
  · rename_i object next
    obtain rfl := Option.some.inj step
    have nobody : clients object = [] := by
      rw [List.eq_nil_iff_forall_not_mem]
      intro other member
      simp only [Orderly, next] at orderly
      exact orderly other ((counted.mem object other).mp member)
    have zero : 0 = (state.objects object).clients := by
      rw [counted.length, nobody]
      rfl
    have initialised := @Counted.store _ state clients object
      { state.objects object with ready := true, clients := 0 } counted zero rfl
    exact ⟨clients, initialised.goesOn next rfl rfl fun _ => id⟩
  -- countUp
  · rename_i object next
    simp only [Orderly, next] at orderly
    simp only [KvAttach.countUp] at step
    split at step
    · split at step
      · obtain rfl := Option.some.inj step
        exact ⟨_, counted.countUp next orderly rfl rfl⟩
      · simp at step
    · obtain rfl := Option.some.inj step
      exact ⟨clients, counted.goesOn next rfl rfl nofun⟩
  -- destroyBegins, with and without a store
  · rename_i object next
    obtain rfl := Option.some.inj step
    exact ⟨clients, counted.goesOn next rfl rfl fun _ => id⟩
  · obtain rfl := Option.some.inj step
    exact ⟨clients, counted⟩
  -- countDown
  · rename_i object next
    exact ⟨_, counted.countDown next step⟩
  -- munmap
  · rename_i object last next
    obtain rfl := Option.some.inj step
    refine ⟨clients, counted.goesOn next ?_ ?_ ?_⟩
    · cases last <;> rfl
    · cases last <;> rfl
    · cases last <;> exact nofun
  -- shmUnlink
  · rename_i next
    obtain rfl := Option.some.inj step
    exact ⟨clients, counted.unlink next⟩
  · simp at step

end Moves

/-! ## Orderly runs -/

section Runs

variable {labels : List (Process × Action)} {final : State Process}

/-- After an orderly run the counters are right. -/
theorem counted_of_run
    (run : Run Step State.initial labels final)
    (orderly : StepsSatisfy Step State.initial labels Orderly) :
    ∃ clients, Counted final clients := by
  have initially : ∃ clients, Counted (State.initial : State Process) clients :=
    ⟨_, counted_initial⟩
  refine @StepsSatisfy.invariant _ _ _ _ _ _ (fun state => ∃ clients, Counted state clients) _
    orderly run initially ?_
  rintro before label after ⟨clients, counted⟩ step here
  exact counted.step step here

/-- A test for orderly steps of finitely many processes. -/
def orderlyTest [Fintype Process] (before : State Process) (label : Process × Action) : Bool :=
  match label.2, before.phases label.1 with
  | .initialise, .initialising object =>
      decide (∀ other, (before.phases other).counted ≠ some object)
  | .countUp, .counting object => !(before.objects object).closing
  | _, _ => true

omit [DecidableEq Process] in
theorem orderly_of_test
    [Fintype Process]
    {before after : State Process}
    {label : Process × Action}
    (tested : orderlyTest before label = true) :
    Orderly before label after := by
  unfold orderlyTest at tested
  unfold Orderly
  split at tested <;> simp_all

/-- Two processes attach one after the other, and both leave. -/
def oneAfterTheOther : List (Bool × Action) :=
  [(false, .createBegins), (false, .smExists false), (false, .shmOpen true),
    (false, .ftruncate true), (false, .mmap true), (false, .initialise), (false, .countUp),
    (true, .createBegins), (true, .smExists true), (true, .shmOpen true), (true, .mmap true),
    (true, .countUp), (false, .destroyBegins), (false, .countDown), (false, .munmap)]

/-- Two processes find no object, and the slower one initialises the store of the other. -/
def bothCreate : List (Nat × Action) :=
  [(0, .createBegins), (1, .createBegins), (0, .smExists false), (1, .smExists false),
    (0, .shmOpen true), (0, .ftruncate true), (0, .mmap true), (0, .initialise), (0, .countUp),
    (1, .shmOpen true), (1, .ftruncate true), (1, .mmap true), (1, .initialise), (1, .countUp)]

/-- The first of them leaves again. -/
def firstLeaves : List (Nat × Action) :=
  [(0, .destroyBegins), (0, .countDown), (0, .munmap)]

end Runs

end Sysprog.KvAttach
